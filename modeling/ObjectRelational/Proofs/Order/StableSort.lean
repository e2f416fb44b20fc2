import Mathlib.Data.List.Sort
import ObjectRelational.Order.StableSort

set_option autoImplicit false
set_option relaxedAutoImplicit false

/-!
What stable sorting leaves behind: the elements in an order in which none precedes an earlier one,
and those that tie as they stood. So sorting again changes nothing, and where nothing ties the
order of the input does not matter.
-/

namespace ObjectRelational.Order

variable {α : Type}

private theorem insertBy_eq_orderedInsert (precedes : α → α → Bool) (x : α) (ys : List α) :
    insertBy precedes x ys = ys.orderedInsert (fun a b => precedes b a = false) x := by
  induction ys with
  | nil => rfl
  | cons y ys ih =>
    rw [insertBy, List.orderedInsert_cons, ih]
    cases precedes y x <;> rfl

theorem stableSort_eq_insertionSort (precedes : α → α → Bool) (xs : List α) :
    stableSort precedes xs = xs.insertionSort (fun a b => precedes b a = false) := by
  induction xs with
  | nil => rfl
  | cons x xs ih =>
    rw [List.insertionSort_cons, ← ih, ← insertBy_eq_orderedInsert, stableSort_cons]

section Preorder

variable (precedes : α → α → Bool)
  (total : ∀ a b, precedes b a = false ∨ precedes a b = false)
  (trans : ∀ a b c, precedes b a = false → precedes c b = false → precedes c a = false)

include total trans

/-- No element precedes an earlier one, for a test that comes from a total preorder. -/
theorem pairwise_stableSort (xs : List α) :
    (stableSort precedes xs).Pairwise (fun a b => precedes b a = false) := by
  have : Std.Total fun a b => precedes b a = false := ⟨total⟩
  have : IsTrans α fun a b => precedes b a = false := ⟨trans⟩
  rw [stableSort_eq_insertionSort]
  exact List.pairwise_insertionSort _ xs

theorem pairwise_insertBy (x : α) {xs : List α}
    (sorted : xs.Pairwise fun a b => precedes b a = false) :
    (insertBy precedes x xs).Pairwise fun a b => precedes b a = false := by
  have : Std.Total fun a b => precedes b a = false := ⟨total⟩
  have : IsTrans α fun a b => precedes b a = false := ⟨trans⟩
  rw [insertBy_eq_orderedInsert]
  exact sorted.orderedInsert x xs

theorem stableSort_eq_of_perm {xs ys : List α} (perm : xs.Perm ys)
    (strict : ∀ a ∈ xs, ∀ b ∈ xs, precedes b a = false → precedes a b = false → a = b) :
    stableSort precedes xs = stableSort precedes ys := by
  have sorted := pairwise_stableSort precedes total trans
  have same : (stableSort precedes xs).Perm (stableSort precedes ys) :=
    ((stableSort_perm precedes xs).trans perm).trans (stableSort_perm precedes ys).symm
  refine same.eq_of_pairwise (fun a b ha hb => ?_) (sorted xs) (sorted ys)
  exact strict a (mem_stableSort.mp ha) b (perm.mem_iff.mpr (mem_stableSort.mp hb))

end Preorder

theorem filter_stableSort {precedes : α → α → Bool} {chosen : α → Bool} {xs : List α}
    (tied : ∀ a ∈ xs, ∀ b ∈ xs, chosen a = true → chosen b = true → precedes b a = false) :
    (stableSort precedes xs).filter chosen = xs.filter chosen := by
  have sorted : (xs.filter chosen).Pairwise fun a b => precedes b a = false :=
    List.pairwise_of_forall_mem_list fun a ha b hb =>
      tied a (List.mem_of_mem_filter ha) b (List.mem_of_mem_filter hb) (List.of_mem_filter ha)
        (List.of_mem_filter hb)
  have kept : (xs.filter chosen).Sublist (stableSort precedes xs) := by
    rw [stableSort_eq_insertionSort]
    exact List.sublist_insertionSort sorted List.filter_sublist
  have chosen_kept := kept.filter chosen
  rw [List.filter_filter] at chosen_kept
  simp only [Bool.and_self] at chosen_kept
  exact (chosen_kept.eq_of_length ((stableSort_perm precedes xs).filter chosen).length_eq.symm).symm

theorem map_stableSort {β : Type} (f : α → β) (precedes : β → β → Bool) (xs : List α) :
    (stableSort (fun a b => precedes (f a) (f b)) xs).map f = stableSort precedes (xs.map f) := by
  rw [stableSort_eq_insertionSort, stableSort_eq_insertionSort]
  exact List.map_insertionSort _ _ f xs fun _ _ _ _ => Iff.rfl

theorem pairwise_stableSort_of_mem {precedes : α → α → Bool} {xs : List α}
    (total : ∀ a ∈ xs, ∀ b ∈ xs, precedes b a = false ∨ precedes a b = false)
    (trans : ∀ a ∈ xs, ∀ b ∈ xs, ∀ c ∈ xs,
      precedes b a = false → precedes c b = false → precedes c a = false) :
    (stableSort precedes xs).Pairwise (fun a b => precedes b a = false) := by
  have sorted := pairwise_stableSort (fun a b : { x // x ∈ xs } => precedes a b)
    (fun a b => total a a.2 b b.2) (fun a b c => trans a a.2 b b.2 c c.2) xs.attach
  have elements := map_stableSort Subtype.val precedes xs.attach
  rw [List.attach_map_subtype_val] at elements
  rw [← elements]
  exact List.pairwise_map.mpr sorted

theorem pairwise_le_stableSort (number : α → Nat) (xs : List α) :
    (stableSort (fun a b => decide (number a < number b)) xs).Pairwise
      (fun a b => number a ≤ number b) := by
  have sorted := pairwise_stableSort (fun a b => decide (number a < number b))
    (by intro a b; simp only [decide_eq_false_iff_not]; omega)
    (by intro a b c; simp only [decide_eq_false_iff_not]; omega) xs
  exact sorted.imp fun h => by simpa using h

end ObjectRelational.Order
