import Mathlib.Data.List.Basic
import ObjectRelational.Json.Token

set_option autoImplicit false
set_option relaxedAutoImplicit false

/-!
Texts of a document are read back: the pieces from their characters, and the characters of a text
from its pieces. A character that cannot stand in a text is given by its letter or by its number,
so that every text can be written.
-/

namespace ObjectRelational.Json

/-- A piece that can be written: a control character needs a letter, a unit has 16 bits. -/
def Piece.IsWritable : Piece → Prop
  | .char c => isControl c = true → (escapeLetter? c).isSome = true
  | .unit n => n < 0x10000

private theorem Piece.isWritable_ofChar (c : Char) : (Piece.ofChar c).IsWritable := by
  unfold Piece.ofChar
  split
  · rename_i named
    have below : c.toNat < 0x20 := by simpa [isControl] using (Bool.and_eq_true_iff.mp named).1
    show c.toNat < 0x10000
    omega
  · rename_i plain
    intro control
    simpa [control, Option.isSome_iff_ne_none] using plain

theorem isWritable_of_mem_writeText {s : String} {p : Piece} (member : p ∈ writeText s) :
    p.IsWritable := by
  obtain ⟨c, -, rfl⟩ := List.mem_map.mp member
  exact Piece.isWritable_ofChar c

private theorem readPieces_unit_cons {n : Nat} (leading : isLeadingHalf n = false)
    (trailing : isTrailingHalf n = false) (pieces : List Piece) :
    readPieces (.unit n :: pieces) = (readPieces pieces).map (Char.ofNat n :: ·) := by
  cases pieces with
  | nil => simp [readPieces, leading, trailing]
  | cons next pieces => cases next <;> simp [readPieces, leading, trailing]

private theorem readPieces_ofChar_cons (c : Char) (pieces : List Piece) :
    readPieces (.ofChar c :: pieces) = (readPieces pieces).map (c :: ·) := by
  unfold Piece.ofChar
  split
  · rename_i named
    have below : c.toNat < 0x20 := by simpa [isControl] using (Bool.and_eq_true_iff.mp named).1
    have leading : isLeadingHalf c.toNat = false := by simp [isLeadingHalf]; omega
    have trailing : isTrailingHalf c.toNat = false := by simp [isTrailingHalf]; omega
    rw [readPieces_unit_cons leading trailing, Char.ofNat_toNat]
  · rfl

private theorem readPieces_map_ofChar (cs : List Char) :
    readPieces (cs.map Piece.ofChar) = some cs := by
  induction cs with
  | nil => rfl
  | cons c cs ih => rw [List.map_cons, readPieces_ofChar_cons, ih, Option.map_some]

/-- Every text is read from the pieces that stand for it. -/
theorem readText_writeText (s : String) : readText (writeText s) = some s := by
  rw [readText, writeText, readPieces_map_ofChar, Option.map_some, String.ofList_toList]

private theorem hexValue?_hexDigit : ∀ d < 16, hexValue? (hexDigit d) = some d := by decide

private theorem escaped?_of_escapeLetter? {c letter : Char}
    (written : escapeLetter? c = some letter) : letter ≠ 'u' ∧ escaped? letter = some c := by
  unfold escapeLetter? at written
  split at written <;> cases written <;> exact ⟨by decide, rfl⟩

private theorem ne_of_escapeLetter?_eq_none {c : Char} (plain : escapeLetter? c = none) :
    c ≠ '"' ∧ c ≠ '\\' := by
  constructor
  · rintro rfl
    cases plain
  · rintro rfl
    cases plain

namespace Lexer

def run (s : Lexer) (chars : List Char) : Option Lexer := chars.foldlM feed s

theorem run_cons (s : Lexer) (c : Char) (chars : List Char) :
    s.run (c :: chars) = (s.feed c).bind (run · chars) := List.foldlM_cons

variable (tokens : List Token) (pieces : List Piece) (rest : List Char)

private theorem run_written {p : Piece} (writable : p.IsWritable) :
    run ⟨tokens, .text pieces⟩ (p.written ++ rest) = run ⟨tokens, .text (p :: pieces)⟩ rest := by
  cases p with
  | char c =>
    cases letter : escapeLetter? c with
    | some l =>
      obtain ⟨named, read⟩ := escaped?_of_escapeLetter? letter
      simp [Piece.written, letter, run_cons, feed, named, read]
    | none =>
      obtain ⟨quote, backslash⟩ := ne_of_escapeLetter?_eq_none letter
      have plain : isControl c = false := by
        cases control : isControl c with
        | false => rfl
        | true => simpa [letter] using writable control
      simp [Piece.written, letter, run_cons, feed, quote, backslash, plain]
  | unit n =>
    have digit : ∀ d, hexValue? (hexDigit (d % 16)) = some (d % 16) :=
      fun d => hexValue?_hexDigit _ (Nat.mod_lt d (by decide))
    have value : 16 * (16 * (16 * (n / 4096 % 16) + n / 256 % 16) + n / 16 % 16) + n % 16 = n := by
      have : n < 0x10000 := writable
      omega
    simp [Piece.written, run_cons, feed, digit, value]

theorem run_quotedPieces (writable : ∀ p ∈ pieces, p.IsWritable) :
    run ⟨tokens, .between⟩ (quotedPieces pieces ++ rest) =
      run ⟨.text pieces :: tokens, .between⟩ rest := by
  have inside : ∀ behind, run ⟨tokens, .text behind⟩ (pieces.flatMap Piece.written ++ '"' :: rest) =
      run ⟨.text (behind.reverse ++ pieces) :: tokens, .between⟩ rest := by
    induction pieces with
    | nil =>
      intro behind
      simp [run_cons, feed]
    | cons p pieces ih =>
      intro behind
      obtain ⟨first, others⟩ := List.forall_mem_cons.mp writable
      rw [List.flatMap_cons, List.append_assoc, run_written _ _ _ first, ih others]
      simp
  have opened : run ⟨tokens, .between⟩ (quotedPieces pieces ++ rest) =
      run ⟨tokens, .text []⟩ (pieces.flatMap Piece.written ++ '"' :: rest) := by
    simp [quotedPieces, run_cons, feed, feedBetween, isBlank]
  rw [opened, inside, List.reverse_nil, List.nil_append]

end Lexer

end ObjectRelational.Json
