import Mathlib.Algebra.BigOperators.Group.Finset.Basic
import Mathlib.Data.Fintype.Pigeonhole
import ObjectRelational.Digraph.TopologicalOrder
import ObjectRelational.Proofs.Digraph.Reachability

set_option autoImplicit false
set_option relaxedAutoImplicit false

/-!
An emission in progress. At every moment the count of a vertex is that of the arcs whose origin was
not emitted, so what is emitted is closed under predecessors, and what is kept back at the end
hangs on a cycle.
-/

namespace ObjectRelational.Digraph

open Relation
open ObjectRelational.Order

/-- Vertices, the latest first, each behind all its predecessors. -/
inductive Legal (adjacency : List (List Nat)) : List Nat → Prop
  | nil : Legal adjacency []
  | cons {p : Nat} {ps : List Nat} : p < adjacency.length → p ∉ ps →
      (∀ o, Leads adjacency o p → o ∈ ps) → Legal adjacency ps → Legal adjacency (p :: ps)

namespace Legal

variable {adjacency : List (List Nat)} {ps : List Nat}

theorem nodup (h : Legal adjacency ps) : ps.Nodup := by
  induction h with
  | nil => exact List.nodup_nil
  | cons _ new _ _ ih => exact List.nodup_cons.mpr ⟨new, ih⟩

theorem lt_of_mem (h : Legal adjacency ps) : ∀ p ∈ ps, p < adjacency.length := by
  induction h with
  | nil => simp
  | cons inside _ _ _ ih =>
    intro p hp
    rcases List.mem_cons.mp hp with rfl | hp
    · exact inside
    · exact ih p hp

theorem sublist_of_leads (h : Legal adjacency ps) {o p : Nat} (hp : p ∈ ps)
    (leads : Leads adjacency o p) : [p, o].Sublist ps := by
  induction h with
  | nil => simp at hp
  | cons _ _ all _ ih =>
    rcases List.mem_cons.mp hp with rfl | hp
    · exact (List.singleton_sublist.mpr (all o leads)).cons_cons _
    · exact (ih hp).cons _

private theorem mem_of_walk (h : Legal adjacency ps) {o p : Nat} (hp : p ∈ ps)
    (walk : Walk adjacency o p) : o ∈ ps := by
  induction walk using ReflTransGen.head_induction_on with
  | refl => exact hp
  | head leads _ ih => exact (h.sublist_of_leads ih leads).subset (by simp)

private theorem not_transGen_self (h : Legal adjacency ps) :
    ∀ p ∈ ps, ¬ TransGen (Leads adjacency) p p := by
  -- the last arc of such a cycle would start behind the vertex
  induction h with
  | nil => simp
  | cons _ new all rest ih =>
    intro p hp cycle
    rcases List.mem_cons.mp hp with rfl | hp
    · obtain ⟨o, walk, leads⟩ := TransGen.tail'_iff.mp cycle
      exact new (rest.mem_of_walk (all o leads) walk)
    · exact ih p hp cycle

end Legal

/-- Where every member of a class has a predecessor in the class, each is reached from a cycle. -/
private theorem exists_cycle_of_predecessors {adjacency : List (List Nat)} (kept : Nat → Prop)
    (predecessor : ∀ p, kept p → ∃ o, Leads adjacency o p ∧ kept o) {p : Nat} (hp : kept p) :
    ∃ c, TransGen (Leads adjacency) c c ∧ Walk adjacency c p := by
  choose! back leads stays using predecessor
  have all_kept : ∀ i, kept (back^[i] p) := by
    intro i
    induction i with
    | zero => exact hp
    | succ i ih =>
      rw [Function.iterate_succ_apply']
      exact stays _ ih
  have walk : ∀ i k, Walk adjacency (back^[i + k] p) (back^[i] p) := by
    intro i k
    induction k with
    | zero => exact .refl
    | succ k ih =>
      rw [← Nat.add_assoc, Function.iterate_succ_apply']
      exact ih.head (leads _ (all_kept _))
  have inside : ∀ i, back^[i + 1] p < adjacency.length := by
    intro i
    rw [Function.iterate_succ_apply']
    exact (leads _ (all_kept i)).origin_lt
  -- finitely many positions, so going back meets one twice
  obtain ⟨i, j, ne, met⟩ := Finite.exists_ne_map_eq_of_infinite fun i : Nat =>
    (⟨back^[i + 1] p, inside i⟩ : Fin adjacency.length)
  have same : back^[i + 1] p = back^[j + 1] p := congrArg Fin.val met
  have cycle : ∀ i j, i < j → back^[i + 1] p = back^[j + 1] p →
      TransGen (Leads adjacency) (back^[i + 1] p) (back^[i + 1] p) := by
    intro i j lt same
    have first : Leads adjacency (back^[j + 1] p) (back^[j] p) := by
      rw [Function.iterate_succ_apply']
      exact leads _ (all_kept j)
    have rest := walk (i + 1) (j - (i + 1))
    rw [Nat.add_sub_of_le lt] at rest
    rw [← same] at first
    exact TransGen.head' first rest
  have reached := walk 0 (i + 1)
  rw [Nat.zero_add] at reached
  refine ⟨back^[i + 1] p, ?_, reached⟩
  rcases Nat.lt_or_gt_of_ne ne with lt | gt
  · exact cycle i j lt same
  · rw [same]
    exact cycle j i gt same.symm

namespace Emission

/-- The number of arcs that end at `p` and whose origin was not emitted. -/
def unconsumed (adjacency : List (List Nat)) (emitted : List Nat) (p : Nat) : Nat :=
  ∑ o ∈ Finset.range adjacency.length with o ∉ emitted, (adjacency[o]?.getD []).count p

section Unconsumed

variable {adjacency : List (List Nat)} {emitted : List Nat} {p : Nat}

private theorem unconsumed_nil : unconsumed adjacency [] p = adjacency.flatten.count p := by
  simp only [unconsumed, List.not_mem_nil, not_false_eq_true, Finset.filter_true]
  induction adjacency with
  | nil => simp
  | cons row rows ih =>
    rw [List.length_cons, Finset.sum_range_succ']
    simp only [List.getElem?_cons_succ, List.getElem?_cons_zero, ih, List.flatten_cons,
      List.count_append, Option.getD_some]
    exact Nat.add_comm _ _

private theorem unconsumed_eq_add {o : Nat} (inside : o < adjacency.length) (new : o ∉ emitted) :
    unconsumed adjacency emitted p =
      unconsumed adjacency (o :: emitted) p + (adjacency[o]?.getD []).count p := by
  have split : (Finset.range adjacency.length).filter (· ∉ emitted) =
      insert o ((Finset.range adjacency.length).filter (· ∉ o :: emitted)) := by
    ext q
    simp only [Finset.mem_filter, Finset.mem_range, Finset.mem_insert, List.mem_cons, not_or]
    constructor
    · rintro ⟨hq, out⟩
      by_cases same : q = o
      · exact .inl same
      · exact .inr ⟨hq, same, out⟩
    · rintro (rfl | ⟨hq, -, out⟩)
      · exact ⟨inside, new⟩
      · exact ⟨hq, out⟩
  rw [unconsumed, split, Finset.sum_insert (by simp), Nat.add_comm]
  rfl

theorem unconsumed_eq_zero_iff :
    unconsumed adjacency emitted p = 0 ↔ ∀ o, Leads adjacency o p → o ∈ emitted := by
  rw [unconsumed, Finset.sum_eq_zero_iff]
  constructor
  · intro zero o leads
    by_contra out
    exact List.count_eq_zero.mp
      (zero o (Finset.mem_filter.mpr ⟨Finset.mem_range.mpr leads.origin_lt, out⟩)) leads
  · intro all o ho
    exact List.count_eq_zero.mpr fun leads => (Finset.mem_filter.mp ho).2 (all o leads)

end Unconsumed

/-- The state of an emission that has still to consume the arcs to the `owed` vertices, which
leave the vertex that was emitted last. -/
structure Balanced (adjacency : List (List Nat)) (owed : List Nat) (s : Emission) : Prop where
  legal : Legal adjacency s.emitted
  length_remaining : s.remaining.length = adjacency.length
  remaining_eq : ∀ p < adjacency.length,
    s.remaining[p]? = some (unconsumed adjacency s.emitted p + owed.count p)
  ready_nodup : s.ready.Nodup
  mem_ready_iff : ∀ p, p ∈ s.ready ↔ p ∉ s.emitted ∧ s.remaining[p]? = some 0
  owed_new : ∀ p ∈ owed, p < adjacency.length ∧ p ∉ s.emitted

variable {adjacency : List (List Nat)} {prefers : Nat → Nat → Bool} {s t : Emission}

namespace Balanced

theorem start (adjacency : List (List Nat)) (prefers : Nat → Nat → Bool) :
    Balanced adjacency [] (Emission.start prefers
      ((List.range adjacency.length).map fun p => adjacency.flatten.count p)) := by
  have perm := stableSort_perm prefers ((List.range adjacency.length).filter fun p =>
    ((List.range adjacency.length).map fun p => adjacency.flatten.count p)[p]? == some 0)
  refine
    { legal := .nil
      length_remaining := by simp [Emission.start]
      remaining_eq := ?_
      ready_nodup := ?_
      mem_ready_iff := ?_
      owed_new := by simp }
  · intro p hp
    simp [Emission.start, hp, unconsumed_nil]
  · simp only [Emission.start, List.length_map, List.length_range]
    exact perm.nodup_iff.mpr (List.nodup_range.filter _)
  · intro p
    simp only [Emission.start, List.length_map, List.length_range]
    rw [perm.mem_iff, List.mem_filter, List.mem_range]
    by_cases hp : p < adjacency.length <;> simp [hp]

theorem remaining_owed {p : Nat} {owed : List Nat} (h : Balanced adjacency (p :: owed) s) :
    s.remaining[p]? = some (unconsumed adjacency s.emitted p + owed.count p + 1) := by
  rw [h.remaining_eq p (h.owed_new p List.mem_cons_self).1, List.count_cons_self, Nat.add_assoc]

theorem release {p : Nat} {owed : List Nat} (h : Balanced adjacency (p :: owed) s) :
    Balanced adjacency owed (s.release prefers p) := by
  obtain ⟨inside, new⟩ := h.owed_new p List.mem_cons_self
  have count := h.remaining_owed
  generalize hk : unconsumed adjacency s.emitted p + owed.count p = k at count
  have released : s.release prefers p =
      { s with
        remaining := s.remaining.set p k
        ready := if k = 0 then insertBy prefers p s.ready else s.ready } := by
    simp only [Emission.release, count]
  have not_ready : p ∉ s.ready := fun ready => by
    have zero := ((h.mem_ready_iff p).mp ready).2
    rw [count] at zero
    cases zero
  have inside' : p < s.remaining.length := h.length_remaining.symm ▸ inside
  rw [released]
  refine
    { legal := h.legal
      length_remaining := (List.length_set ..).trans h.length_remaining
      remaining_eq := ?_
      ready_nodup := ?_
      mem_ready_iff := ?_
      owed_new := fun q hq => h.owed_new q (List.mem_cons_of_mem _ hq) }
  · intro q hq
    by_cases same : p = q
    · subst same
      simp [inside', hk]
    · rw [List.getElem?_set_ne same, h.remaining_eq q hq, List.count_cons_of_ne same]
  · dsimp only
    split
    · exact (insertBy_perm prefers p s.ready).nodup_iff.mpr
        (List.nodup_cons.mpr ⟨not_ready, h.ready_nodup⟩)
    · exact h.ready_nodup
  · intro q
    dsimp only
    by_cases same : p = q
    · subst same
      split
      · rename_i zero
        subst zero
        simp [mem_insertBy, inside', new]
      · rename_i positive
        simp [not_ready, inside', positive]
    · rw [List.getElem?_set_ne same, ← h.mem_ready_iff q]
      split
      · simp [mem_insertBy, Ne.symm same]
      · rfl

private theorem foldl_release {owed : List Nat} (h : Balanced adjacency owed s) :
    Balanced adjacency [] (owed.foldl (Emission.release prefers) s) := by
  induction owed generalizing s with
  | nil => exact h
  | cons p owed ih => exact ih h.release

private theorem legal_cons (h : Balanced adjacency [] s) {p : Nat} (ready : p ∈ s.ready) :
    Legal adjacency (p :: s.emitted) := by
  obtain ⟨new, zero⟩ := (h.mem_ready_iff p).mp ready
  have inside : p < adjacency.length :=
    h.length_remaining ▸ (List.getElem?_eq_some_iff.mp zero).1
  rw [h.remaining_eq p inside] at zero
  exact .cons inside new (unconsumed_eq_zero_iff.mp (Option.some.inj zero)) h.legal

theorem emit (bounded : Bounded adjacency) (h : Balanced adjacency [] s) {p : Nat}
    {ready : List Nat} (hready : s.ready = p :: ready) :
    Balanced adjacency (adjacency[p]?.getD []) { s with ready, emitted := p :: s.emitted } := by
  have first : p ∈ s.ready := hready ▸ List.mem_cons_self
  have legal := h.legal_cons first
  have new := ((h.mem_ready_iff p).mp first).1
  have nodup := h.ready_nodup
  rw [hready] at nodup
  refine
    { legal := legal
      length_remaining := h.length_remaining
      remaining_eq := ?_
      ready_nodup := (List.nodup_cons.mp nodup).2
      mem_ready_iff := ?_
      owed_new := ?_ }
  · intro q hq
    have inside := legal.lt_of_mem p List.mem_cons_self
    rw [h.remaining_eq q hq, unconsumed_eq_add inside new]
    rfl
  · intro q
    have before := h.mem_ready_iff q
    rw [hready, List.mem_cons] at before
    rw [List.mem_cons, not_or, and_assoc, ← before]
    constructor
    · intro hq
      refine ⟨?_, .inr hq⟩
      rintro rfl
      exact (List.nodup_cons.mp nodup).1 hq
    · rintro ⟨ne, hq⟩
      exact hq.resolve_left ne
  · intro q leads
    refine ⟨bounded p q leads, fun emitted => ?_⟩
    -- an emitted successor would have needed `p` below itself
    have order := legal.sublist_of_leads emitted leads
    rcases List.mem_cons.mp emitted with rfl | emitted
    · exact absurd leads fun loop => legal.not_transGen_self q List.mem_cons_self (.single loop)
    · exact new ((h.legal.sublist_of_leads emitted leads).subset (by simp))

end Balanced

private theorem emitted_release (prefers : Nat → Nat → Bool) (s : Emission) (p : Nat) :
    (s.release prefers p).emitted = s.emitted := by
  unfold release
  split <;> rfl

private theorem emitted_foldl_release (prefers : Nat → Nat → Bool) (ps : List Nat) (s : Emission) :
    (ps.foldl (release prefers) s).emitted = s.emitted := by
  induction ps generalizing s with
  | nil => rfl
  | cons p ps ih => rw [List.foldl_cons, ih, emitted_release]

theorem next?_eq_some {p : Nat} (h : s.next? adjacency prefers = some (p, t)) :
    ∃ ready, s.ready = p :: ready ∧
      t = (adjacency[p]?.getD []).foldl (release prefers)
        { s with ready, emitted := p :: s.emitted } := by
  unfold next? at h
  split at h
  · cases h
  · rename_i q ready hready
    injection h with h
    injection h with hq ht
    subst hq
    exact ⟨ready, hready, ht.symm⟩

private theorem next?_eq_none (h : s.next? adjacency prefers = none) : s.ready = [] := by
  unfold next? at h
  split at h
  · assumption
  · cases h

theorem Balanced.next? (bounded : Bounded adjacency) (h : Balanced adjacency [] s) {p : Nat}
    (step : s.next? adjacency prefers = some (p, t)) :
    Balanced adjacency [] t ∧ t.emitted = p :: s.emitted := by
  obtain ⟨ready, hready, rfl⟩ := next?_eq_some step
  exact ⟨(h.emit bounded hready).foldl_release, emitted_foldl_release _ _ _⟩

/-- The vertices of successive emissions, up to any of them. -/
inductive Emits (adjacency : List (List Nat)) (prefers : Nat → Nat → Bool) :
    Emission → List Nat → Emission → Prop
  | stop (s : Emission) : Emits adjacency prefers s [] s
  | next {s t u : Emission} {p : Nat} {ps : List Nat} :
      s.next? adjacency prefers = some (p, t) → Emits adjacency prefers t ps u →
      Emits adjacency prefers s (p :: ps) u

theorem Balanced.emits (bounded : Bounded adjacency) (h : Balanced adjacency [] s) {ps : List Nat}
    (run : Emits adjacency prefers s ps t) :
    Balanced adjacency [] t ∧ t.emitted = ps.reverse ++ s.emitted := by
  induction run with
  | stop => exact ⟨h, rfl⟩
  | next step _ ih =>
    obtain ⟨balanced, emitted⟩ := h.next? bounded step
    obtain ⟨balanced, all⟩ := ih balanced
    exact ⟨balanced, by rw [all, emitted]; simp⟩

theorem emits_drain (adjacency : List (List Nat)) (prefers : Nat → Nat → Bool) (s : Emission) :
    ∃ ps, Emits adjacency prefers s ps (s.drain adjacency prefers) ∧
      (s.drain adjacency prefers).next? adjacency prefers = none := by
  fun_induction drain adjacency prefers s with
  | case1 s ended => exact ⟨[], .stop s, ended⟩
  | case2 s p t step _ ih =>
    obtain ⟨ps, run, ended⟩ := ih
    exact ⟨p :: ps, .next step run, ended⟩

theorem Balanced.mem_emitted_iff (h : Balanced adjacency [] s)
    (ended : s.next? adjacency prefers = none) {p : Nat} (inside : p < adjacency.length) :
    p ∈ s.emitted ↔ ¬ ∃ c, TransGen (Leads adjacency) c c ∧ Walk adjacency c p := by
  constructor
  · rintro emitted ⟨c, cycle, walk⟩
    exact h.legal.not_transGen_self c (h.legal.mem_of_walk emitted walk) cycle
  · intro free
    by_contra kept
    refine free (exists_cycle_of_predecessors
      (fun q => q < adjacency.length ∧ q ∉ s.emitted) ?_ ⟨inside, kept⟩)
    rintro q ⟨hq, out⟩
    have waits : s.remaining[q]? ≠ some 0 := fun zero => by
      have ready := (h.mem_ready_iff q).mpr ⟨out, zero⟩
      rw [next?_eq_none ended] at ready
      cases ready
    rw [h.remaining_eq q hq, List.count_nil, Nat.add_zero, ne_eq, Option.some.injEq,
      unconsumed_eq_zero_iff] at waits
    push Not at waits
    obtain ⟨o, leads, ho⟩ := waits
    exact ⟨o, leads, leads.origin_lt, ho⟩

end Emission

end ObjectRelational.Digraph
