import ObjectRelational.Json.Pretty
import ObjectRelational.Proofs.Json.Text

set_option autoImplicit false
set_option relaxedAutoImplicit false

/-!
Documents are read back. A value is a sequence of tokens: the lexer finds it in the indented
document, whatever blanks stand between the tokens, and the reader puts the value together again.
-/

namespace ObjectRelational.Json

namespace Lexer

/-- The tokens behind the lexer, the latest first, once the word that may be begun has ended. -/
def Settled (s : Lexer) (tokens : List Token) : Prop := s.finish = some tokens.reverse

variable {s : Lexer} {tokens : List Token}

private theorem settled_between (tokens : List Token) : Settled ⟨tokens, .between⟩ tokens := rfl

private theorem Settled.feed (h : s.Settled tokens) {c : Char} (ends : isWordChar c = false) :
    s.feed c = some (feedBetween tokens c) := by
  obtain ⟨before, mode⟩ := s
  cases mode with
  | between =>
    obtain rfl := List.reverse_injective (Option.some.inj h)
    rfl
  | word chars =>
    obtain rfl := List.reverse_injective (Option.some.inj h)
    simp [Lexer.feed, ends]
  | text pieces => cases h
  | escape pieces => cases h
  | unit pieces missing value => cases h

private theorem feedBetween_punctuation {c : Char} {token : Token}
    (stands : punctuation? c = some token) :
    feedBetween tokens c = { tokens := token :: tokens } := by
  unfold punctuation? at stands
  split at stands <;> cases stands <;> rfl

private theorem Settled.run_punctuation (h : s.Settled tokens) {c : Char} {token : Token}
    (stands : punctuation? c = some token) (rest : List Char) :
    s.run (c :: rest) = run ⟨token :: tokens, .between⟩ rest := by
  have ends : isWordChar c = false := by simp [isWordChar, stands]
  rw [run_cons, h.feed ends, feedBetween_punctuation stands, Option.bind_some]

private theorem run_blank (tokens : List Token) (rest : List Char) :
    run ⟨tokens, .between⟩ (' ' :: rest) = run ⟨tokens, .between⟩ rest := rfl

private theorem Settled.run_lineBreak (h : s.Settled tokens) (depth : Nat) (rest : List Char) :
    s.run (Value.lineBreak depth ++ rest) = run ⟨tokens, .between⟩ rest := by
  have blanks : ∀ count, run ⟨tokens, .between⟩ (List.replicate count ' ' ++ rest) =
      run ⟨tokens, .between⟩ rest := by
    intro count
    induction count with
    | zero => rfl
    | succ count ih =>
      rw [List.replicate_succ, List.cons_append, run_blank]
      exact ih
  have ends : isWordChar '\n' = false := rfl
  rw [Value.lineBreak, List.cons_append, run_cons, h.feed ends]
  exact blanks _

end Lexer

namespace Value

/-- A value whose texts can be written. Descriptors hold no numbers, which are left out. -/
inductive IsWritable : Value → Prop
  | null : IsWritable .null
  | bool (b : Bool) : IsWritable (.bool b)
  | text {pieces : List Piece} : (∀ p ∈ pieces, p.IsWritable) → IsWritable (.text pieces)
  | array {items : List Value} : (∀ v ∈ items, v.IsWritable) → IsWritable (.array items)
  | object {members : List (List Piece × Value)} : (∀ m ∈ members, ∀ p ∈ m.1, p.IsWritable) →
      (∀ m ∈ members, m.2.IsWritable) → IsWritable (.object members)

mutual

def tokens : Value → List Token
  | .null => [.word ['n', 'u', 'l', 'l']]
  | .bool true => [.word ['t', 'r', 'u', 'e']]
  | .bool false => [.word ['f', 'a', 'l', 's', 'e']]
  | .number chars => [.word chars]
  | .text pieces => [.text pieces]
  | .array [] => [.openArray, .closeArray]
  | .array (v :: vs) => .openArray :: tokens v ++ itemTokens vs ++ [.closeArray]
  | .object [] => [.openObject, .closeObject]
  | .object ((key, v) :: members) =>
    .openObject :: .text key :: .colon :: tokens v ++ memberTokens members ++ [.closeObject]

def itemTokens : List Value → List Token
  | [] => []
  | v :: vs => .comma :: tokens v ++ itemTokens vs

def memberTokens : List (List Piece × Value) → List Token
  | [] => []
  | (key, v) :: members => .comma :: .text key :: .colon :: tokens v ++ memberTokens members

end

section Lexing

/-- Between two tokens, the characters of a value are read as its tokens. -/
def Lexes (v : Value) : Prop :=
  ∀ depth before rest, ∃ s : Lexer, s.Settled (v.tokens.reverse ++ before) ∧
    Lexer.run ⟨before, .between⟩ (v.prettyChars depth ++ rest) = s.run rest

variable {depth : Nat} {s : Lexer} {before : List Token}

private theorem exists_run_prettyItems {vs : List Value} (lexes : ∀ v ∈ vs, v.Lexes)
    (settled : s.Settled before) (rest : List Char) :
    ∃ s' : Lexer, s'.Settled ((itemTokens vs).reverse ++ before) ∧
      s.run (prettyItems depth vs ++ rest) = s'.run rest := by
  induction vs generalizing s before with
  | nil => exact ⟨s, settled, rfl⟩
  | cons v vs ih =>
    obtain ⟨first, others⟩ := List.forall_mem_cons.mp lexes
    obtain ⟨s₁, settled₁, run₁⟩ := first depth (.comma :: before) (prettyItems depth vs ++ rest)
    obtain ⟨s₂, settled₂, run₂⟩ := ih others settled₁
    refine ⟨s₂, by simpa [itemTokens] using settled₂, ?_⟩
    simp only [prettyItems, List.cons_append, List.append_assoc]
    rw [settled.run_punctuation rfl, (Lexer.settled_between _).run_lineBreak, run₁, run₂]

private theorem Lexes.member {v : Value} (lexes : v.Lexes) {key : List Piece}
    (writable : ∀ p ∈ key, p.IsWritable) (depth : Nat) (before : List Token) (rest : List Char) :
    ∃ s : Lexer, s.Settled (v.tokens.reverse ++ .colon :: .text key :: before) ∧
      Lexer.run ⟨before, .between⟩
        (quotedPieces key ++ ':' :: ' ' :: (v.prettyChars depth ++ rest)) = s.run rest := by
  obtain ⟨s, settled, run⟩ := lexes depth (.colon :: .text key :: before) rest
  refine ⟨s, settled, ?_⟩
  rw [Lexer.run_quotedPieces _ _ _ writable, (Lexer.settled_between _).run_punctuation rfl,
    Lexer.run_blank, run]

private theorem exists_run_prettyMembers {members : List (List Piece × Value)}
    (keys : ∀ m ∈ members, ∀ p ∈ m.1, p.IsWritable) (lexes : ∀ m ∈ members, m.2.Lexes)
    (settled : s.Settled before) (rest : List Char) :
    ∃ s' : Lexer, s'.Settled ((memberTokens members).reverse ++ before) ∧
      s.run (prettyMembers depth members ++ rest) = s'.run rest := by
  induction members generalizing s before with
  | nil => exact ⟨s, settled, rfl⟩
  | cons m members ih =>
    obtain ⟨key, v⟩ := m
    obtain ⟨key₁, keys⟩ := List.forall_mem_cons.mp keys
    obtain ⟨first, others⟩ := List.forall_mem_cons.mp lexes
    obtain ⟨s₁, settled₁, run₁⟩ :=
      first.member key₁ depth (.comma :: before) (prettyMembers depth members ++ rest)
    obtain ⟨s₂, settled₂, run₂⟩ := ih keys others settled₁
    refine ⟨s₂, by simpa [memberTokens] using settled₂, ?_⟩
    simp only [prettyMembers, List.cons_append, List.append_assoc, List.nil_append]
    rw [settled.run_punctuation rfl, (Lexer.settled_between _).run_lineBreak, run₁, run₂]

private theorem run_close (settled : s.Settled before) {c : Char} {token : Token}
    (closes : punctuation? c = some token) (depth : Nat) (rest : List Char) :
    s.run (lineBreak depth ++ c :: rest) = Lexer.run ⟨token :: before, .between⟩ rest := by
  rw [settled.run_lineBreak, (Lexer.settled_between _).run_punctuation closes]

private theorem lexes_array {items : List Value} (lexes : ∀ v ∈ items, v.Lexes) :
    (Value.array items).Lexes := by
  intro depth before rest
  have opened (rest : List Char) : Lexer.run ⟨before, .between⟩ ('[' :: rest) =
      Lexer.run ⟨.openArray :: before, .between⟩ rest :=
    (Lexer.settled_between before).run_punctuation rfl rest
  cases items with
  | nil => exact ⟨_, Lexer.settled_between (.closeArray :: .openArray :: before), rfl⟩
  | cons v vs =>
    obtain ⟨first, others⟩ := List.forall_mem_cons.mp lexes
    obtain ⟨s₁, settled₁, run₁⟩ := first (depth + 1) (.openArray :: before)
      (prettyItems (depth + 1) vs ++ (lineBreak depth ++ ']' :: rest))
    obtain ⟨s₂, settled₂, run₂⟩ :=
      exists_run_prettyItems others settled₁ (lineBreak depth ++ ']' :: rest)
    refine ⟨_, Lexer.settled_between _, ?_⟩
    simp only [prettyChars, List.cons_append, List.append_assoc, List.nil_append]
    rw [opened, (Lexer.settled_between _).run_lineBreak, run₁, run₂, run_close settled₂ rfl]
    simp [tokens]

private theorem lexes_object {members : List (List Piece × Value)}
    (keys : ∀ m ∈ members, ∀ p ∈ m.1, p.IsWritable) (lexes : ∀ m ∈ members, m.2.Lexes) :
    (Value.object members).Lexes := by
  intro depth before rest
  have opened (rest : List Char) : Lexer.run ⟨before, .between⟩ ('\x7b' :: rest) =
      Lexer.run ⟨.openObject :: before, .between⟩ rest :=
    (Lexer.settled_between before).run_punctuation rfl rest
  cases members with
  | nil => exact ⟨_, Lexer.settled_between (.closeObject :: .openObject :: before), rfl⟩
  | cons m members =>
    obtain ⟨key, v⟩ := m
    obtain ⟨key₁, keys⟩ := List.forall_mem_cons.mp keys
    obtain ⟨first, others⟩ := List.forall_mem_cons.mp lexes
    obtain ⟨s₁, settled₁, run₁⟩ := first.member key₁ (depth + 1) (.openObject :: before)
      (prettyMembers (depth + 1) members ++ (lineBreak depth ++ '\x7d' :: rest))
    obtain ⟨s₂, settled₂, run₂⟩ :=
      exists_run_prettyMembers keys others settled₁ (lineBreak depth ++ '\x7d' :: rest)
    refine ⟨_, Lexer.settled_between _, ?_⟩
    simp only [prettyChars, List.cons_append, List.append_assoc, List.nil_append]
    rw [opened, (Lexer.settled_between _).run_lineBreak, run₁, run₂, run_close settled₂ rfl]
    simp [tokens]

private theorem IsWritable.lexes {v : Value} (writable : v.IsWritable) : v.Lexes := by
  induction writable with
  | null =>
    intro depth before rest
    exact ⟨⟨before, .word ['l', 'l', 'u', 'n']⟩, rfl, rfl⟩
  | bool b =>
    intro depth before rest
    cases b with
    | true => exact ⟨⟨before, .word ['e', 'u', 'r', 't']⟩, rfl, rfl⟩
    | false => exact ⟨⟨before, .word ['e', 's', 'l', 'a', 'f']⟩, rfl, rfl⟩
  | @text pieces writable =>
    intro depth before rest
    exact ⟨_, Lexer.settled_between (.text pieces :: before),
      Lexer.run_quotedPieces before pieces rest writable⟩
  | array _ ih => exact lexes_array ih
  | object keys _ ih => exact lexes_object keys ih

private theorem IsWritable.tokens?_pretty {v : Value} (writable : v.IsWritable) :
    tokens? v.pretty.toList = some v.tokens := by
  obtain ⟨s, settled, run⟩ := writable.lexes 0 [] []
  have read : v.pretty.toList.foldlM Lexer.feed {} = some s := by
    rw [pretty, String.toList_ofList, ← List.append_nil (v.prettyChars 0)]
    exact run
  rw [tokens?, read]
  simpa [Lexer.Settled] using settled

end Lexing

end Value

namespace ReadState

def run (state : ReadState) (tokens : List Token) : Option ReadState := tokens.foldlM feed state

private theorem run_cons (state : ReadState) (token : Token) (tokens : List Token) :
    state.run (token :: tokens) = (state.feed token).bind (run · tokens) := List.foldlM_cons

end ReadState

namespace Value

def Reads (v : Value) : Prop :=
  ∀ within mayClose rest, ReadState.run (.value within mayClose) (v.tokens ++ rest) =
    ReadState.run (.after within v) rest

variable {within : List Container} (rest : List Token)

private theorem run_itemTokens {vs : List Value} (reads : ∀ v ∈ vs, v.Reads) (items : List Value)
    (v : Value) :
    ReadState.run (.after (.array items :: within) v) (itemTokens vs ++ .closeArray :: rest) =
      ReadState.run (.after within (.array (items.reverse ++ v :: vs))) rest := by
  induction vs generalizing items v with
  | nil => simp [itemTokens, ReadState.run_cons, ReadState.feed]
  | cons next vs ih =>
    obtain ⟨first, others⟩ := List.forall_mem_cons.mp reads
    simp only [itemTokens, List.cons_append, List.append_assoc, ReadState.run_cons,
      ReadState.feed, Option.bind_some]
    rw [first, ih others]
    simp

private theorem run_memberTokens {more : List (List Piece × Value)} (reads : ∀ m ∈ more, m.2.Reads)
    (members : List (List Piece × Value)) (key : List Piece) (v : Value) :
    ReadState.run (.after (.object members key :: within) v)
        (memberTokens more ++ .closeObject :: rest) =
      ReadState.run (.after within (.object (members.reverse ++ (key, v) :: more))) rest := by
  induction more generalizing members key v with
  | nil => simp [memberTokens, ReadState.run_cons, ReadState.feed]
  | cons m more ih =>
    obtain ⟨next, w⟩ := m
    obtain ⟨first, others⟩ := List.forall_mem_cons.mp reads
    simp only [memberTokens, List.cons_append, List.append_assoc, ReadState.run_cons,
      ReadState.feed, Option.bind_some]
    rw [first, ih others]
    simp

private theorem IsWritable.reads {v : Value} (writable : v.IsWritable) : v.Reads := by
  intro within mayClose rest
  induction writable generalizing within mayClose rest with
  | null => rfl
  | bool b => cases b <;> rfl
  | text _ => rfl
  | @array items _ ih =>
    cases items with
    | nil => rfl
    | cons v vs =>
      obtain ⟨first, others⟩ := List.forall_mem_cons.mp ih
      simp only [tokens, List.cons_append, List.append_assoc, ReadState.run_cons, ReadState.feed,
        Option.bind_some]
      rw [first, List.nil_append, run_itemTokens rest others]
      rfl
  | @object members _ _ ih =>
    cases members with
    | nil => rfl
    | cons m members =>
      obtain ⟨key, v⟩ := m
      obtain ⟨first, others⟩ := List.forall_mem_cons.mp ih
      simp only [tokens, List.cons_append, List.append_assoc, ReadState.run_cons, ReadState.feed,
        Option.bind_some]
      rw [first, List.nil_append, run_memberTokens rest others]
      rfl

/-- A writable value is read from its document. -/
theorem IsWritable.parse?_pretty {v : Value} (writable : v.IsWritable) :
    parse? v.pretty = some v := by
  have read := writable.reads [] false []
  rw [List.append_nil] at read
  have last : v.tokens.foldlM ReadState.feed (.value [] false) = some (.after [] v) := read
  rw [parse?, writable.tokens?_pretty]
  simp only [Option.bind_eq_bind, Option.bind_some, last]
  rfl

end Value

end ObjectRelational.Json
