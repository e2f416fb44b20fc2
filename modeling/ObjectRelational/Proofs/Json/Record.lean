import ObjectRelational.Json.Record
import ObjectRelational.Proofs.Json.Document

set_option autoImplicit false
set_option relaxedAutoImplicit false

/-!
Records are read back. An object of named fields gives each field its value, and values that hold
texts, flags or lists are read as what they were written for.
-/

namespace ObjectRelational.Json.Value

variable {α β : Type}

/-- The value can be written, and it is read as what it was written for. -/
structure Describes (v : Value) (read : Value → Option α) (a : α) : Prop where
  writable : v.IsWritable
  read : read v = some a

@[simp] theorem isWritable_ofText (s : String) : (ofText s).IsWritable :=
  .text fun _ member => isWritable_of_mem_writeText member

@[simp] theorem isWritable_bool (b : Bool) : (bool b).IsWritable := .bool b

@[simp] theorem text?_ofText (s : String) : (ofText s).text? = some s := readText_writeText s

@[simp] theorem bool?_bool (b : Bool) : (bool b).bool? = some b := rfl

theorem describes_ofText (s : String) : (ofText s).Describes text? s :=
  ⟨isWritable_ofText s, text?_ofText s⟩

theorem caseName?_ofText (s : String) : (ofText s).caseName? = some s := readText_writeText s

private theorem mapM_eq_some {γ : Type} {write : α → β} {read : β → Option γ} {result : α → γ}
    {items : List α} (each : ∀ a ∈ items, read (write a) = some (result a)) :
    (items.map write).mapM read = some (items.map result) := by
  induction items with
  | nil => rfl
  | cons a items ih =>
    obtain ⟨first, others⟩ := List.forall_mem_cons.mp each
    simp [first, ih others]

theorem describes_array {write : α → Value} {read : Value → Option β} {result : α → β}
    {items : List α} (each : ∀ a ∈ items, (write a).Describes read (result a)) :
    (array (items.map write)).Describes (list? read) (items.map result) := by
  constructor
  · apply IsWritable.array
    intro v member
    obtain ⟨a, ha, rfl⟩ := List.mem_map.mp member
    exact (each a ha).writable
  · exact mapM_eq_some fun a ha => (each a ha).read

theorem describes_list {write : α → Value} {read : Value → Option α}
    (each : ∀ a, (write a).Describes read a) (items : List α) :
    (array (items.map write)).Describes (list? read) items := by
  have all : (array (items.map write)).Describes (list? read) (items.map id) :=
    describes_array fun a _ => each a
  rwa [List.map_id] at all

theorem describes_two {write : α → Value} {read : Value → Option α}
    (each : ∀ a, (write a).Describes read a) (a b : α) :
    (array [write a, write b]).Describes (two? read) (a, b) := by
  obtain ⟨writable, items⟩ := describes_list each [a, b]
  refine ⟨writable, ?_⟩
  have both : list? read (array [write a, write b]) = some [a, b] := items
  rw [two?, both]

theorem isWritable_record {members : List (String × Value)}
    (values : ∀ m ∈ members, m.2.IsWritable) : (record members).IsWritable := by
  apply IsWritable.object
  · intro m member p
    obtain ⟨field, -, rfl⟩ := List.mem_map.mp member
    exact isWritable_of_mem_writeText
  · intro m member
    obtain ⟨field, hfield, rfl⟩ := List.mem_map.mp member
    exact values field hfield

private theorem lookupOnce_of_nodup {members : List (String × Value)}
    (distinct : (members.map Prod.fst).Nodup) {m : String × Value} (member : m ∈ members) :
    lookupOnce members m.1 = some (some m.2) := by
  have only : members.filter (·.1 == m.1) = [m] := by
    induction members with
    | nil => cases member
    | cons first members ih =>
      obtain ⟨new, distinct⟩ := List.nodup_cons.mp distinct
      rcases List.mem_cons.mp member with rfl | member
      · have others : members.filter (·.1 == m.1) = [] := by
          apply List.filter_eq_nil_iff.mpr
          intro other hother same
          exact new (eq_of_beq same ▸ List.mem_map_of_mem hother)
        rw [List.filter_cons, if_pos (beq_self_eq_true _), others]
      · have differs : ¬ (first.1 == m.1) = true := fun same =>
          new (eq_of_beq same ▸ List.mem_map_of_mem member)
        rw [List.filter_cons, if_neg differs, ih distinct member]
  rw [lookupOnce, only]

private theorem fields?_record {members : List (String × Value)}
    (distinct : (members.map Prod.fst).Nodup) :
    (record members).fields? (members.map Prod.fst) = some (members.map fun m => some m.2) := by
  have keys : (members.map fun m => (writeText m.1, m.2)).mapM
      (fun m => (readText m.1).map (·, m.2)) = some (members.map id) := by
    apply mapM_eq_some
    intro m _
    rw [readText_writeText]
    rfl
  rw [List.map_id] at keys
  have values : (members.map Prod.fst).mapM (lookupOnce members) =
      some (members.map fun m => some m.2) :=
    mapM_eq_some fun m member => lookupOnce_of_nodup distinct member
  rw [record, fields?]
  exact (congrArg (Option.bind · _) keys).trans values

/-- A record is read as what its fields are read as. -/
theorem describes_record {members : List (String × Value)} {read : Value → Option α} {a : α}
    (values : ∀ m ∈ members, m.2.IsWritable) (distinct : (members.map Prod.fst).Nodup)
    (reads : (record members).fields? (members.map Prod.fst) =
      some (members.map fun m => some m.2) → read (record members) = some a) :
    (record members).Describes read a :=
  ⟨isWritable_record values, reads (fields?_record distinct)⟩

@[simp] theorem onlyMember?_record (key : String) (v : Value) :
    (record [(key, v)]).onlyMember? = some (key, v) :=
  congrArg (·.map (·, v)) (readText_writeText key)

@[simp] theorem required_some (read : Value → Option α) (v : Value) :
    required read (some v) = read v := rfl

@[simp] theorem optional_some (absent : α) (read : Value → Option α) (v : Value) :
    optional absent read (some v) = read v := rfl

end ObjectRelational.Json.Value
