import ObjectRelational.Proofs.Digraph.Built
import ObjectRelational.Proofs.Digraph.Greedy

set_option autoImplicit false
set_option relaxedAutoImplicit false

/-!
Which of its topological orders a graph is emitted in: the one that comes first when orders are
compared vertex by vertex under the preference. A preference by keys can be read off a table of
ranks, in which each position has its place among the positions sorted by their keys.
-/

namespace ObjectRelational.Digraph

open ObjectRelational.Order

section Comparison

variable {α : Type} {cmp : α → α → Ordering}

private theorem compareLex_concat {xs ys : List α} (same : xs.length = ys.length) (x y : α) :
    List.compareLex cmp (xs ++ [x]) (ys ++ [y]) = (List.compareLex cmp xs ys).then (cmp x y) := by
  induction xs generalizing ys with
  | nil =>
    obtain rfl := List.eq_nil_of_length_eq_zero same.symm
    rw [List.nil_append, List.nil_append, List.compareLex_cons_cons, List.compareLex_nil_nil,
      Ordering.then_eq]
    rfl
  | cons x' xs ih =>
    cases ys with
    | nil => cases same
    | cons y' ys =>
      rw [List.cons_append, List.cons_append, List.compareLex_cons_cons, ih (Nat.succ.inj same),
        List.compareLex_cons_cons, Ordering.then_assoc]

/-- Values of which each is open when it is taken, the latest first. -/
inductive Feasible (isOpen : List α → α → Prop) : List α → Prop
  | nil : Feasible isOpen []
  | cons {a : α} {taken : List α} : isOpen taken a → Feasible isOpen taken →
      Feasible isOpen (a :: taken)

variable {isOpen : List α → α → Prop} {prefers prefers' : α → α → Prop}

/-- Where the preferred of two open values is the lesser, what is taken greedily comes before
anything else that could be taken. -/
private theorem Greedy.compareLex_eq_lt [Std.ReflCmp cmp]
    (decides : ∀ taken a b, isOpen taken a → isOpen taken b → prefers a b → cmp a b = .lt)
    {as bs : List α} (greedy : Greedy isOpen prefers as) (feasible : Feasible isOpen bs)
    (same : as.length = bs.length) (differ : as ≠ bs) :
    List.compareLex cmp as.reverse bs.reverse = .lt := by
  induction greedy generalizing bs with
  | nil => exact absurd (List.eq_nil_of_length_eq_zero same.symm).symm differ
  | @cons a taken opened first _ ih =>
    cases feasible with
    | nil => cases same
    | @cons b taken' opened' feasible' =>
      have lengths : taken.length = taken'.length := Nat.succ.inj same
      rw [List.reverse_cons, List.reverse_cons, compareLex_concat (by simpa using lengths)]
      by_cases earlier : taken = taken'
      · subst earlier
        have other : b ≠ a := fun met => differ (met ▸ rfl)
        have itself : List.compareLex cmp taken.reverse taken.reverse = .eq :=
          Std.ReflCmp.compare_self
        rw [itself, decides _ a b opened opened' (first b opened' other)]
        rfl
      · rw [ih feasible' lengths earlier]
        rfl

private theorem Greedy.congr
    (alike : ∀ taken a b, isOpen taken a → isOpen taken b → prefers a b → prefers' a b)
    {as : List α} (greedy : Greedy isOpen prefers as) : Greedy isOpen prefers' as := by
  induction greedy with
  | nil => exact .nil
  | cons opened first _ ih =>
    refine .cons opened (fun b opened' differ => ?_) ih
    exact alike _ _ b opened opened' (first b opened' differ)

end Comparison

section Ranks

/-- Writes the place of each position of a list into a table. -/
def rankTable (ordered : List Nat) : List Nat :=
  ordered.zipIdx.foldl (fun table (position, rank) => table.set position rank)
    (List.replicate ordered.length 0)

/-- The positions of keys from the smallest to the largest, those of equal keys as they stand. -/
def byKey {K : Type} [Ord K] (keys : List K) : List Nat :=
  stableSort (fun p q => (compare keys[p]? keys[q]?).isLT) (List.range keys.length)

def ranks {K : Type} [Ord K] (keys : List K) : List Nat := rankTable (byKey keys)

private theorem getElem?_foldl_set_of_not_mem {positions : List Nat} {p : Nat}
    (absent : p ∉ positions) (k : Nat) (table : List Nat) :
    ((positions.zipIdx k).foldl (fun table (position, rank) => table.set position rank) table)[p]? =
      table[p]? := by
  induction positions generalizing k table with
  | nil => rfl
  | cons q positions ih =>
    obtain ⟨other, absent⟩ := not_or.mp (mt List.mem_cons.mpr absent)
    rw [List.zipIdx_cons, List.foldl_cons, ih absent, List.getElem?_set_ne (Ne.symm other)]

private theorem getElem?_foldl_set {positions : List Nat} (distinct : positions.Nodup) {k p r : Nat}
    {table : List Nat} (inside : p < table.length) (there : positions[r]? = some p) :
    ((positions.zipIdx k).foldl (fun table (position, rank) => table.set position rank) table)[p]? =
      some (k + r) := by
  induction positions generalizing k r table with
  | nil => cases there
  | cons q positions ih =>
    obtain ⟨absent, distinct⟩ := List.nodup_cons.mp distinct
    rw [List.zipIdx_cons, List.foldl_cons]
    cases r with
    | zero =>
      obtain rfl : q = p := by simpa using there
      rw [getElem?_foldl_set_of_not_mem absent]
      simp [inside]
    | succ r =>
      rw [ih distinct (by simpa using inside) (by simpa using there)]
      congr 1
      omega

private theorem getElem?_rankTable {ordered : List Nat} {n : Nat}
    (perm : ordered.Perm (List.range n)) {p r : Nat} (there : ordered[r]? = some p) :
    (rankTable ordered)[p]? = some r := by
  have distinct : ordered.Nodup := perm.nodup_iff.mpr List.nodup_range
  have bound : p < n := List.mem_range.mp (perm.mem_iff.mp (List.mem_of_getElem? there))
  have length : ordered.length = n := perm.length_eq.trans List.length_range
  have written : (rankTable ordered)[p]? = some (0 + r) :=
    getElem?_foldl_set distinct (by simpa [length] using bound) there
  rwa [Nat.zero_add] at written

variable {K : Type} [Ord K] (keys : List K)

private theorem byKey_perm : (byKey keys).Perm (List.range keys.length) := stableSort_perm _ _

variable [Std.TransOrd K]

private theorem pairwise_byKey :
    (byKey keys).Pairwise fun p q => (compare keys[q]? keys[p]?).isLT = false := by
  have isLE_iff (p q : Nat) : (compare keys[q]? keys[p]?).isLT = false ↔
      (compare keys[p]? keys[q]?).isLE = true := by
    rw [Std.OrientedOrd.eq_swap (a := keys[q]?)]
    cases compare keys[p]? keys[q]? <;> simp
  apply pairwise_stableSort
  · intro p q
    rw [Std.OrientedOrd.eq_swap (a := keys[q]?)]
    cases compare keys[p]? keys[q]? <;> simp
  · intro p q r
    rw [isLE_iff, isLE_iff, isLE_iff]
    exact Std.TransCmp.isLE_trans

omit [Std.TransOrd K] in
private theorem sublist_byKey {p q : Nat} (lt : p < q) (bound : q < keys.length)
    (notSmaller : (compare keys[q]? keys[p]?).isLT = false) : [p, q].Sublist (byKey keys) := by
  have before : [p, q].Sublist (List.range keys.length) := by
    apply sublist_range
    · simpa using lt
    · simp only [List.forall_mem_cons, List.not_mem_nil, false_implies, implies_true, and_true]
      omega
  rw [byKey, stableSort_eq_insertionSort]
  exact List.pair_sublist_insertionSort notSmaller before

private theorem ranks_lt_of_prefersKey {p q : Nat} (hp : p < keys.length) (hq : q < keys.length)
    (preferred : prefersKey keys p q = true) :
    ∃ i j, (ranks keys)[p]? = some i ∧ (ranks keys)[q]? = some j ∧ i < j := by
  have perm := byKey_perm keys
  have distinct : (byKey keys).Nodup := perm.nodup_iff.mpr List.nodup_range
  obtain ⟨i, hi⟩ := List.mem_iff_getElem?.mp (perm.mem_iff.mpr (List.mem_range.mpr hp))
  obtain ⟨j, hj⟩ := List.mem_iff_getElem?.mp (perm.mem_iff.mpr (List.mem_range.mpr hq))
  refine ⟨i, j, getElem?_rankTable perm hi, getElem?_rankTable perm hj, ?_⟩
  by_contra behind
  have differ : p ≠ q := by
    rintro rfl
    exact (linear_prefersKey keys).asymm p p preferred preferred
  have other : j ≠ i := by
    rintro rfl
    exact differ (Option.some.inj (hi.symm.trans hj))
  -- then the sorted list has `q` in front of `p`, so the keys tie and `p` is the earlier one
  have lt : j < i := by omega
  obtain ⟨bi, hi'⟩ := List.getElem?_eq_some_iff.mp hi
  obtain ⟨bj, hj'⟩ := List.getElem?_eq_some_iff.mp hj
  have sorted := List.pairwise_iff_getElem.mp (pairwise_byKey keys) j i bj bi lt
  rw [hi', hj'] at sorted
  rw [prefersKey_eq_true_iff] at preferred
  rcases Ordering.then_eq_lt.mp preferred with smaller | ⟨tied, earlier⟩
  · change compare keys[p]? keys[q]? = .lt at smaller
    rw [smaller] at sorted
    cases sorted
  · have notSmaller : (compare keys[q]? keys[p]?).isLT = false := by
      rw [Std.OrientedOrd.eq_swap (a := keys[q]?)]
      change compare keys[p]? keys[q]? = .eq at tied
      rw [tied]
      rfl
    have kept := sublist_byKey keys (Nat.compare_eq_lt.mp earlier) hq notSmaller
    exact behind (lt_of_pair_sublist distinct kept hi hj)

private theorem prefersKey_ranks {p q : Nat} (hp : p < keys.length) (hq : q < keys.length)
    (preferred : prefersKey keys p q = true) : prefersKey (ranks keys) p q = true := by
  obtain ⟨i, j, hi, hj, lt⟩ := ranks_lt_of_prefersKey keys hp hq preferred
  rw [prefersKey, hi, hj]
  have smaller : compare (some i) (some j) = .lt := Nat.compare_eq_lt.mpr lt
  rw [smaller]
  rfl

end Ranks

section Positions

variable {V E : Type} {g : Digraph V E} {prefers prefers' : Nat → Nat → Bool}

private theorem emittedPositions_congr (linear : Linear prefers) (linear' : Linear prefers')
    (h : g.WellFormed)
    (alike : ∀ p < g.order, ∀ q < g.order, prefers p q = true → prefers' p q = true) :
    g.emittedPositions prefers = g.emittedPositions prefers' := by
  have inside : ∀ taken p, Ready g.adjacency taken p → p < g.order := fun _ _ ready =>
    h.length_adjacency ▸ ready.1
  have greedy := (greedy_emittedPositions linear h).congr fun taken p q first second =>
    alike p (inside taken p first) q (inside taken q second)
  have perm : (g.emittedPositions prefers).Perm (g.emittedPositions prefers') :=
    (List.perm_ext_iff_of_nodup (nodup_emittedPositions prefers h)
      (nodup_emittedPositions prefers' h)).mpr fun p =>
        (mem_emittedPositions prefers h).trans (mem_emittedPositions prefers' h).symm
  have same := greedy.eq_of_length (fun p q => linear'.asymm p q)
    (greedy_emittedPositions linear' h) (by simpa using perm.length_eq)
  exact List.reverse_injective same

private theorem topologicalOrder_congr (linear : Linear prefers) (linear' : Linear prefers')
    (h : g.WellFormed)
    (alike : ∀ p < g.order, ∀ q < g.order, prefers p q = true → prefers' p q = true) :
    g.topologicalOrder prefers = g.topologicalOrder prefers' := by
  rw [topologicalOrder, topologicalOrder, emittedPositions_congr linear linear' h alike]

end Positions

variable {V E K : Type} [DecidableEq V] [Ord K] {g : Digraph V E} {vs ws : List V}

/-- Every vertex once, and each behind all those that have an arc to it. -/
structure IsTopological (g : Digraph V E) (vs : List V) : Prop where
  perm : vs.Perm g.vertices
  forward : ∀ v w, g.hasArc v w = true → [v, w].Sublist vs

/-- Compares vertices by their keys, those of equal keys by where they were added. -/
def compareBy (g : Digraph V E) (key : V → K) : V → V → Ordering :=
  compareLex (compareOn key) (compareOn g.position)

def compareAdded (g : Digraph V E) : V → V → Ordering := compareOn g.position

instance [Std.TransOrd K] (key : V → K) : Std.TransCmp (g.compareBy key) :=
  inferInstanceAs (Std.TransCmp (compareLex (compareOn key) (compareOn g.position)))

instance : Std.TransCmp g.compareAdded := inferInstanceAs (Std.TransCmp (compareOn g.position))

private theorem compareBy_of_prefersBy {key : V → K} {v w : V} (hv : v ∈ g.vertices)
    (hw : w ∈ g.vertices) (preferred : g.prefersBy key (g.position v) (g.position w) = true) :
    g.compareBy key v w = .lt := by
  have place : ∀ {v}, v ∈ g.vertices → (g.vertices.map key)[g.position v]? = some (key v) := by
    intro v hv
    rw [List.getElem?_map, getElem?_position hv]
    rfl
  rw [prefersBy, prefersKey, place hv, place hw] at preferred
  exact Ordering.isLT_iff_eq_lt.mp preferred

private theorem compareAdded_of_prefersEarlier {v w : V}
    (preferred : prefersEarlier (g.position v) (g.position w) = true) :
    g.compareAdded v w = .lt := Nat.compare_eq_lt.mpr (of_decide_eq_true preferred)

namespace IsTopological

private theorem feasible (h : g.WellFormed) (topological : g.IsTopological vs) :
    Feasible g.Open vs.reverse := by
  have distinct : vs.Nodup := topological.perm.nodup_iff.mpr h.vertices_nodup
  have grow : ∀ taken rest : List V, taken.reverse ++ rest = vs → Feasible g.Open taken := by
    intro taken
    induction taken with
    | nil => exact fun _ _ => .nil
    | cons v taken ih =>
      intro rest whole
      rw [List.reverse_cons, List.append_assoc, List.singleton_append] at whole
      have place : vs[taken.length]? = some v := by simp [← whole]
      refine .cons ⟨?_, ?_, fun u arc => ?_⟩ (ih _ whole)
      · exact topological.perm.mem_iff.mp (List.mem_of_getElem? place)
      · intro again
        rw [← whole] at distinct
        have apart := (List.nodup_append.mp distinct).2.2
        exact apart v (List.mem_reverse.mpr again) v List.mem_cons_self rfl
      · -- a vertex in front of `v` stands at a smaller place
        have pair := topological.forward u v arc
        obtain ⟨i, hi⟩ := List.mem_iff_getElem?.mp (pair.subset List.mem_cons_self)
        have lt : i < taken.reverse.length := by
          simpa using lt_of_pair_sublist distinct pair hi place
        rw [← whole, List.getElem?_append_left lt] at hi
        exact List.mem_reverse.mp (List.mem_of_getElem? hi)
  exact grow vs.reverse [] (by simp)

end IsTopological

namespace WellFormed

private theorem isTopological_emittedVertices (h : g.WellFormed) (acyclic : g.Acyclic)
    (prefers : Nat → Nat → Bool) : g.IsTopological (g.emittedVertices prefers) := by
  have perm := h.emittedVertices_perm prefers acyclic
  exact ⟨perm, fun v w arc =>
    h.sublist_emittedVertices prefers arc (perm.mem_iff.mpr (h.mem_of_hasArc arc).2)⟩

private theorem compareLex_emittedVertices {prefers : Nat → Nat → Bool} (linear : Linear prefers)
    (h : g.WellFormed) (acyclic : g.Acyclic) {cmp : V → V → Ordering} [Std.ReflCmp cmp]
    (decides : ∀ v ∈ g.vertices, ∀ w ∈ g.vertices,
      prefers (g.position v) (g.position w) = true → cmp v w = .lt)
    (topological : g.IsTopological ws) (differ : ws ≠ g.emittedVertices prefers) :
    List.compareLex cmp (g.emittedVertices prefers) ws = .lt := by
  have perm := (h.emittedVertices_perm prefers acyclic).trans topological.perm.symm
  have before := (h.greedy_emittedVertices linear).compareLex_eq_lt
    (fun _ v w first second => decides v first.1 w second.1) (topological.feasible h)
    (by simpa using perm.length_eq) (fun same => differ (List.reverse_injective same).symm)
  rwa [List.reverse_reverse, List.reverse_reverse] at before

end WellFormed

/-- A graph without cycles has an order, and of all its topological orders the one that comes first
when vertices are compared by key and then by where they were added, or by the latter alone where
there are no keys. A table of ranks gives the same as the keys. Vertices that were added in a
topological order stay as they are. -/
theorem topologicalOrder_least [Std.TransOrd K] (built : g.Built) (acyclic : g.Acyclic)
    (key : V → K) :
    (∃ vs, g.topologicalOrder (g.prefersBy key) = .ok vs ∧
        g.topologicalOrder (prefersKey (ranks (g.vertices.map key))) = .ok vs ∧
        g.IsTopological vs ∧
        ∀ ws, g.IsTopological ws → ws ≠ vs → List.compareLex (g.compareBy key) vs ws = .lt) ∧
      (∃ vs, g.topologicalOrder prefersEarlier = .ok vs ∧ g.IsTopological vs ∧
        ∀ ws, g.IsTopological ws → ws ≠ vs → List.compareLex g.compareAdded vs ws = .lt) ∧
      (g.IsTopological g.vertices → g.topologicalOrder prefersEarlier = .ok g.vertices) := by
  have formed := built.wellFormed
  have linear : Linear (g.prefersBy key) := linear_prefersKey _
  have found := formed.topologicalOrder_of_acyclic (g.prefersBy key) acyclic
  have keyed : (g.vertices.map key).length = g.order := List.length_map key
  have ranked := topologicalOrder_congr linear (linear_prefersKey (ranks (g.vertices.map key)))
    formed fun p hp q hq => prefersKey_ranks _ (keyed.symm ▸ hp) (keyed.symm ▸ hq)
  refine ⟨⟨_, found, ranked ▸ found, formed.isTopological_emittedVertices acyclic _,
    fun ws topological differ => ?_⟩, ⟨_, formed.topologicalOrder_of_acyclic _ acyclic,
    formed.isTopological_emittedVertices acyclic _, fun ws topological differ => ?_⟩,
    fun topological => ?_⟩
  · exact formed.compareLex_emittedVertices linear acyclic
      (fun v hv w hw => compareBy_of_prefersBy hv hw) topological differ
  · exact formed.compareLex_emittedVertices linear_prefersEarlier acyclic
      (fun v _ w _ => compareAdded_of_prefersEarlier) topological differ
  · have forward : ∀ v w, g.hasArc v w = true → g.position v < g.position w := by
      intro v w arc
      obtain ⟨hv, hw⟩ := formed.mem_of_hasArc arc
      exact lt_of_pair_sublist formed.vertices_nodup (topological.forward v w arc)
        (getElem?_position hv) (getElem?_position hw)
    rw [formed.topologicalOrder_of_acyclic _ acyclic, formed.emittedVertices_of_forward forward]

/-- Of four vertices the last has the least key but one, and the least key waits for a larger. -/
theorem topologicalOrder_least_waiting :
    let g := ((({} : Digraph Nat Unit).putArc 5 1 ()).addVertex 4).addVertex 2
    g.Built ∧ g.Acyclic ∧ g.topologicalOrder (g.prefersBy (· / 2)) = .ok [2, 5, 1, 4] ∧
      g.IsTopological [2, 4, 5, 1] ∧
      List.compareLex (g.compareBy (· / 2)) [2, 5, 1, 4] [2, 4, 5, 1] = .lt ∧
      g.IsTopological g.vertices ∧ g.topologicalOrder prefersEarlier = .ok [5, 1, 4, 2] := by
  intro g
  have built : g.Built := .addVertex 2 (.addVertex 4 (.putArc 5 1 () .empty))
  have only : ∀ v w, g.hasArc v w = true → v = 5 ∧ w = 1 := by
    intro v w arc
    obtain ⟨label, member⟩ := built.wellFormed.hasArc_iff_mem_arcs.mp arc
    have arcs : g.arcs = [(5, 1, ())] := by decide
    rw [arcs, List.mem_singleton] at member
    exact ⟨congrArg Prod.fst member, congrArg (fun arc => arc.2.1) member⟩
  have acyclic : g.Acyclic := by
    intro v cycle
    obtain ⟨_, leaves, -⟩ := Relation.TransGen.head'_iff.mp cycle
    obtain ⟨_, -, enters⟩ := Relation.TransGen.tail'_iff.mp cycle
    have both : 5 = 1 := (only _ _ leaves).1.symm.trans (only _ _ enters).2
    cases both
  have topological : g.IsTopological [2, 4, 5, 1] := by
    refine ⟨by decide, fun v w arc => ?_⟩
    obtain ⟨rfl, rfl⟩ := only v w arc
    decide
  have listed : g.IsTopological g.vertices := by
    refine ⟨.refl _, fun v w arc => ?_⟩
    obtain ⟨rfl, rfl⟩ := only v w arc
    decide
  obtain ⟨⟨vs, found, -, -, least⟩, -, kept⟩ := topologicalOrder_least built acyclic (· / 2)
  have order : g.topologicalOrder (g.prefersBy (· / 2)) = .ok [2, 5, 1, 4] := by decide +kernel
  obtain rfl := Except.ok.inj (order.symm.trans found)
  exact ⟨built, acyclic, order, topological, least _ topological (by decide), listed, kept listed⟩

end ObjectRelational.Digraph
