import Mathlib.Order.Compare
import ObjectRelational.Proofs.Order.StableSort
import ObjectRelational.Schema.DataMap

set_option autoImplicit false
set_option relaxedAutoImplicit false

/-!
The order in which joins are written. It is a total preorder, but for joins without a left name:
they tie with all joins of their left table, also with two that do not tie. Where the joins of one
left table either all have a left name or all have none, it is the order of a key, so that sorting
by it puts them in order and leaves joins that tie as they stood.
-/

namespace ObjectRelational

namespace Join

/-- Joins of one left table either both have a left name or both have none. -/
def NamedAlike (a b : Join) : Prop :=
  a.entities.left = b.entities.left → a.names.left.isSome = b.names.left.isSome

instance (a b : Join) : Decidable (a.NamedAlike b) := inferInstanceAs (Decidable (_ → _))

def leftKey (j : Join) : String × String := (j.entities.left, j.names.left.getD "")

def compareKeys : String × String → String × String → Ordering :=
  compareLex (compareOn Prod.fst) (compareOn Prod.snd)

instance : Std.TransCmp compareKeys :=
  inferInstanceAs (Std.TransCmp (compareLex (compareOn Prod.fst) (compareOn Prod.snd)))

/-- What decides between joins of one left table: their left names, where both have one. -/
def compareNames : Option String → Option String → Ordering
  | some m, some n => compare m n
  | _, _ => .eq

private theorem serializationOrder_eq_then (a b : Join) :
    a.serializationOrder b =
      (compare a.entities.left b.entities.left).then
        (compareNames a.names.left b.names.left) := by
  unfold serializationOrder
  cases compare a.entities.left b.entities.left with
  | lt => rfl
  | gt => rfl
  | eq => cases a.names.left <;> cases b.names.left <;> rfl

private theorem compareNames_eq_compare {x y : Option String} (alike : x.isSome = y.isSome) :
    compareNames x y = compare (x.getD "") (y.getD "") := by
  -- names that are all there, or all missing: then a missing one counts as empty
  cases x with
  | none =>
    cases y with
    | none => exact Std.ReflOrd.compare_self.symm
    | some n => cases alike
  | some m =>
    cases y with
    | none => cases alike
    | some n => rfl

theorem NamedAlike.serializationOrder_eq {a b : Join} (alike : a.NamedAlike b) :
    a.serializationOrder b = compareKeys a.leftKey b.leftKey := by
  rw [serializationOrder_eq_then]
  change _ = (compare a.entities.left b.entities.left).then
    (compare (a.names.left.getD "") (b.names.left.getD ""))
  by_cases same : a.entities.left = b.entities.left
  · rw [compareNames_eq_compare (alike same)]
  · cases tables : compare a.entities.left b.entities.left with
    | lt => rfl
    | gt => rfl
    | eq => exact absurd (Std.LawfulEqOrd.eq_of_compare tables) same

private theorem compareNames_swap (x y : Option String) :
    (compareNames x y).swap = compareNames y x := by
  cases x with
  | none => cases y <;> rfl
  | some m =>
    cases y with
    | none => rfl
    | some n => exact Std.OrientedOrd.eq_swap.symm

private theorem compareNames_eq_eq_iff {x y : Option String} :
    compareNames x y = .eq ↔ ¬ ∃ m n, x = some m ∧ y = some n ∧ m ≠ n := by
  cases x <;> cases y <;> simp [compareNames]

private theorem compareNames_isLE_trans {x y z : Option String} (named : y ≠ none)
    (first : (compareNames x y).isLE = true) (second : (compareNames y z).isLE = true) :
    (compareNames x z).isLE = true := by
  obtain ⟨n, rfl⟩ := Option.ne_none_iff_exists'.mp named
  cases x with
  | none => rfl
  | some m =>
    cases z with
    | none => rfl
    | some o => exact Std.TransOrd.isLE_trans first second

private theorem compareNames_congr {x y : Option String} (tied : compareNames x y = .eq)
    (alike : x.isSome = y.isSome) (z : Option String) : compareNames x z = compareNames y z := by
  cases x with
  | none =>
    cases y with
    | none => rfl
    | some n => cases alike
  | some m =>
    cases y with
    | none => cases alike
    | some n =>
      obtain rfl : m = n := Std.LawfulEqOrd.eq_of_compare tied
      rfl

theorem serializationOrder_swap (a b : Join) :
    (a.serializationOrder b).swap = b.serializationOrder a := by
  rw [serializationOrder_eq_then, serializationOrder_eq_then, Ordering.swap_then,
    compareNames_swap, ← Std.OrientedOrd.eq_swap]

/-- A join without a left name ties with all others of its left table: also with two whose left
names differ, which do not tie. -/
structure Bridges (b a c : Join) : Prop where
  first : a.entities.left = b.entities.left
  second : c.entities.left = b.entities.left
  unnamed : b.names.left = none
  differ : ∃ m n, a.names.left = some m ∧ c.names.left = some n ∧ m ≠ n

section Laws

variable {a b c : Join}

private theorem serializationOrder_of_table (same : a.entities.left = b.entities.left) :
    a.serializationOrder b = compareNames a.names.left b.names.left := by
  rw [serializationOrder_eq_then, same, Std.ReflOrd.compare_self, Ordering.eq_then]

private theorem table_eq_of_serializationOrder_eq (tied : a.serializationOrder b = .eq) :
    a.entities.left = b.entities.left := by
  rw [serializationOrder_eq_then, Ordering.then_eq_eq] at tied
  exact Std.LawfulEqOrd.eq_of_compare tied.1

private theorem bridges_iff (first : a.entities.left = b.entities.left)
    (second : b.entities.left = c.entities.left) :
    b.Bridges a c ↔ b.names.left = none ∧ a.serializationOrder c ≠ .eq := by
  rw [serializationOrder_of_table (first.trans second), ne_eq, compareNames_eq_eq_iff, not_not]
  exact ⟨fun h => ⟨h.unnamed, h.differ⟩, fun h => ⟨first, second.symm, h.1, h.2⟩⟩

private theorem serializationOrder_isLE_trans (first : (a.serializationOrder b).isLE = true)
    (second : (b.serializationOrder c).isLE = true) :
    (a.serializationOrder c).isLE = true ∨ b.Bridges a c := by
  rw [serializationOrder_eq_then] at first second
  rcases Ordering.isLE_then_iff_or.mp first with before | ⟨same, names⟩
  · left
    have behind := Ordering.isLE_left_of_isLE_then second
    rw [serializationOrder_eq_then, Std.TransCmp.lt_of_lt_of_isLE before behind]
    rfl
  replace same := Std.LawfulEqOrd.eq_of_compare same
  rcases Ordering.isLE_then_iff_or.mp second with before | ⟨same', names'⟩
  · left
    rw [serializationOrder_eq_then, same, before]
    rfl
  replace same' := Std.LawfulEqOrd.eq_of_compare same'
  by_cases unnamed : b.names.left = none
  · rw [bridges_iff same same']
    by_cases tied : a.serializationOrder c = .eq
    · exact .inl (Ordering.isLE_of_eq_eq tied)
    · exact .inr ⟨unnamed, tied⟩
  · left
    rw [serializationOrder_of_table (same.trans same')]
    exact compareNames_isLE_trans unnamed names names'

private theorem serializationOrder_eq_trans (first : a.serializationOrder b = .eq)
    (second : b.serializationOrder c = .eq) :
    a.serializationOrder c = .eq ↔ ¬ b.Bridges a c := by
  have same := table_eq_of_serializationOrder_eq first
  have same' := table_eq_of_serializationOrder_eq second
  rw [bridges_iff same same', not_and, ne_eq, not_not]
  constructor
  · exact fun tied _ => tied
  · intro unnamed_tied
    by_cases unnamed : b.names.left = none
    · exact unnamed_tied unnamed
    rw [serializationOrder_of_table same] at first
    rw [serializationOrder_of_table same'] at second
    rw [serializationOrder_of_table (same.trans same')]
    cases ha : a.names.left with
    | none => rfl
    | some m =>
      have named : (some m).isSome = b.names.left.isSome :=
        (Option.isSome_iff_ne_none.mpr unnamed).symm
      rw [ha] at first
      rw [compareNames_congr first named, second]

/-- Joins that tie compare alike with every third one, but for one of the two that bridges the
other and the third. -/
private theorem serializationOrder_congr (tied : a.serializationOrder b = .eq) :
    a.serializationOrder c = b.serializationOrder c ↔ ¬ a.Bridges b c ∧ ¬ b.Bridges a c := by
  have same := table_eq_of_serializationOrder_eq tied
  by_cases third : b.entities.left = c.entities.left
  · rw [bridges_iff same.symm (same.trans third), bridges_iff same third]
    rw [serializationOrder_of_table same] at tied
    rw [serializationOrder_of_table (same.trans third), serializationOrder_of_table third]
    cases ha : a.names.left with
    | none =>
      cases hb : b.names.left with
      | none => simp [compareNames]
      | some n => simp [compareNames, eq_comm]
    | some m =>
      cases hb : b.names.left with
      | none => simp [compareNames]
      | some n =>
        rw [ha, hb] at tied
        rw [compareNames_congr tied rfl]
        simp
  · constructor
    · exact fun _ => ⟨fun h => third (h.first.trans h.second.symm), fun h => third h.second.symm⟩
    · intro _
      rw [serializationOrder_eq_then, serializationOrder_eq_then, same]
      cases tables : compare b.entities.left c.entities.left with
      | lt => rfl
      | gt => rfl
      | eq => exact absurd (Std.LawfulEqOrd.eq_of_compare tables) third

end Laws

/-- The writing order is total and reversed by swapping. It is transitive, and joins that tie
compare alike with every third one, but for joins without a left name that tie with two of their
left table that do not tie. -/
theorem serializationOrder_preorder_unless_bridged (a b c : Join) :
    b.serializationOrder a = (a.serializationOrder b).swap ∧
      ((a.serializationOrder b).isLE = true → (b.serializationOrder c).isLE = true →
        (a.serializationOrder c).isLE = true ∨ b.Bridges a c) ∧
      (a.serializationOrder b = .eq → b.serializationOrder c = .eq →
        (a.serializationOrder c = .eq ↔ ¬ b.Bridges a c)) ∧
      (a.serializationOrder b = .eq →
        (a.serializationOrder c = b.serializationOrder c ↔
          ¬ a.Bridges b c ∧ ¬ b.Bridges a c)) :=
  ⟨(serializationOrder_swap a b).symm, serializationOrder_isLE_trans, serializationOrder_eq_trans,
    serializationOrder_congr⟩

def exhibiting (name : Option String) : Join where
  condition := .single ⟨"GALLERY_ID", "GALLERY_ID"⟩
  entities := ⟨"GALLERY", "PAINTING"⟩
  names := ⟨name, none⟩
  cardinality := .oneToMany

theorem serializationOrder_preorder_unless_bridged_named :
    let a := exhibiting none
    let b := exhibiting (some "paintingArray")
    let c := exhibiting none
    a.serializationOrder b = .eq ∧ b.serializationOrder c = .eq ∧ ¬ b.Bridges a c ∧
      (a.serializationOrder c).isLE = true ∧ a.serializationOrder c = .eq ∧
      a.serializationOrder c = b.serializationOrder c := by
  intro a b c
  have first : a.serializationOrder b = .eq := by decide
  have second : b.serializationOrder c = .eq := by decide
  have unbridged : ¬ b.Bridges a c := fun h => Option.some_ne_none _ h.unnamed
  have unbridged' : ¬ a.Bridges b c := by
    rintro ⟨-, -, -, m, n, -, named, -⟩
    cases named
  obtain ⟨-, order, ties, alike⟩ := serializationOrder_preorder_unless_bridged a b c
  refine ⟨first, second, unbridged, ?_, (ties first second).mpr unbridged,
    (alike first).mpr ⟨unbridged', unbridged⟩⟩
  exact (order (Ordering.isLE_of_eq_eq first) (Ordering.isLE_of_eq_eq second)).resolve_right
    unbridged

/-- A join without a name ties with two that have names and do not tie. -/
theorem serializationOrder_not_transitive :
    ∃ a b c : Join, a.serializationOrder b = .eq ∧ b.serializationOrder c = .eq ∧
      a.serializationOrder c = .gt := by
  refine ⟨exhibiting (some "paintingArray"), exhibiting none, exhibiting (some "exhibitArray"),
    ?_, ?_, ?_⟩
  · decide
  · decide
  · decide

/-- Joins in the order in which they are written, those that tie as they stood. -/
structure StablySorted (joins sorted : List Join) : Prop where
  perm : sorted.Perm joins
  ordered : sorted.Pairwise fun a b => a.serializationOrder b ≠ .gt
  ties : ∀ j ∈ joins, sorted.filter (·.serializationOrder j == .eq) =
    joins.filter (·.serializationOrder j == .eq)

end Join

namespace DataMap

open Join

variable {m : DataMap} (alike : ∀ a ∈ m.joins, ∀ b ∈ m.joins, a.NamedAlike b)

include alike

theorem pairwise_orderedJoins :
    m.orderedJoins.Pairwise fun a b => (b.serializationOrder a).isLT = false := by
  have isGE_of (a b : Join) (ha : a ∈ m.joins) (hb : b ∈ m.joins) :
      (b.serializationOrder a).isLT = false ↔ (compareKeys b.leftKey a.leftKey).isGE = true := by
    rw [(alike b hb a ha).serializationOrder_eq]
    cases compareKeys b.leftKey a.leftKey <;> decide
  apply Order.pairwise_stableSort_of_mem
  · intro a ha b hb
    rw [← serializationOrder_swap a b]
    cases a.serializationOrder b <;> decide
  · intro a ha b hb c hc
    rw [isGE_of a b ha hb, isGE_of b c hb hc, isGE_of a c ha hc]
    intro first second
    exact Std.TransCmp.isGE_trans second first

theorem stablySorted_orderedJoins : StablySorted m.joins m.orderedJoins := by
  refine ⟨Order.stableSort_perm _ _, ?_, ?_⟩
  · refine (pairwise_orderedJoins alike).imp ?_
    intro a b ordered behind
    rw [← serializationOrder_swap, behind] at ordered
    cases ordered
  · intro j hj
    apply Order.filter_stableSort
    intro a ha b hb tied tied'
    have keys (k : Join) (hk : k ∈ m.joins) (tied : (k.serializationOrder j == .eq) = true) :
        compareKeys k.leftKey j.leftKey = .eq := by
      rw [← (alike k hk j hj).serializationOrder_eq]
      exact eq_of_beq tied
    have same : compareKeys b.leftKey a.leftKey = .eq :=
      Std.TransCmp.eq_trans (keys b hb tied') (Std.OrientedCmp.eq_symm (keys a ha tied))
    rw [(alike b hb a ha).serializationOrder_eq, same]
    rfl

end DataMap

end ObjectRelational
