set_option autoImplicit false
set_option relaxedAutoImplicit false

/-!
Stable sorting by insertion, for a strict order given as a test. Elements that neither precede
each other keep their order of appearance.
-/

namespace ObjectRelational.Order

variable {α : Type}

/-- Places `x` in front of the first element that does not precede it. -/
def insertBy (precedes : α → α → Bool) (x : α) : List α → List α
  | [] => [x]
  | y :: ys => if precedes y x then y :: insertBy precedes x ys else x :: y :: ys

/-- The elements in increasing order, those that tie in order of appearance. -/
def stableSort (precedes : α → α → Bool) (xs : List α) : List α :=
  xs.foldr (insertBy precedes) []

theorem insertBy_perm (precedes : α → α → Bool) (x : α) (ys : List α) :
    (insertBy precedes x ys).Perm (x :: ys) := by
  induction ys with
  | nil => exact .refl _
  | cons y ys ih =>
    unfold insertBy
    split
    · exact (ih.cons y).trans (.swap x y ys)
    · exact .refl _

theorem stableSort_perm (precedes : α → α → Bool) (xs : List α) :
    (stableSort precedes xs).Perm xs := by
  induction xs with
  | nil => exact .refl _
  | cons x xs ih => exact (insertBy_perm precedes x _).trans (ih.cons x)

theorem mem_insertBy {precedes : α → α → Bool} {x y : α} {ys : List α} :
    y ∈ insertBy precedes x ys ↔ y = x ∨ y ∈ ys := by
  rw [(insertBy_perm precedes x ys).mem_iff, List.mem_cons]

theorem mem_stableSort {precedes : α → α → Bool} {xs : List α} {x : α} :
    x ∈ stableSort precedes xs ↔ x ∈ xs :=
  (stableSort_perm precedes xs).mem_iff

theorem length_insertBy (precedes : α → α → Bool) (x : α) (ys : List α) :
    (insertBy precedes x ys).length = ys.length + 1 :=
  (insertBy_perm precedes x ys).length_eq

theorem stableSort_cons (precedes : α → α → Bool) (x : α) (xs : List α) :
    stableSort precedes (x :: xs) = insertBy precedes x (stableSort precedes xs) := rfl

/-- What is in order stays as it is. -/
theorem stableSort_of_pairwise {precedes : α → α → Bool} {xs : List α}
    (sorted : xs.Pairwise fun a b => precedes b a = false) : stableSort precedes xs = xs := by
  induction sorted with
  | nil => rfl
  | @cons x xs first _ ih =>
    rw [stableSort_cons, ih]
    cases xs with
    | nil => rfl
    | cons y ys => simp [insertBy, first y List.mem_cons_self]

end ObjectRelational.Order
