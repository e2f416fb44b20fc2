import Mathlib.Algebra.BigOperators.Intervals
import Mathlib.Data.List.ReduceOption
import ObjectRelational.Proofs.Digraph.Built

set_option autoImplicit false
set_option relaxedAutoImplicit false

/-!
An emission between two of its calls. However many vertices were asked for, the count of a vertex
is that of its arcs from vertices that were not answered yet, and what is ready is what has none
of them left. So no count is lowered below zero, also in the middle of a call.
-/

namespace ObjectRelational.Digraph

variable {V E : Type}

private theorem unconsumed_eq_countP (g : Digraph V E) (emitted : List Nat) (p : Nat) :
    Emission.unconsumed g.adjacency emitted p =
      g.positionedArcs.countP fun (origin, arc) => arc.destination = p ∧ origin ∉ emitted := by
  unfold Emission.unconsumed adjacency positionedArcs
  rw [List.length_map]
  generalize g.rows = rows
  induction rows using List.reverseRecOn with
  | nil => simp
  | append_singleton rows row ih =>
    have last : (row.map fun arc => (rows.length, arc)).countP
        (fun (origin, arc) => arc.destination = p ∧ origin ∉ emitted) =
          if rows.length ∉ emitted then (row.map (·.destination)).count p else 0 := by
      rw [List.countP_map, List.count, List.countP_map]
      split
      · rename_i out
        simp [Function.comp_def, out, beq_eq_decide]
      · rename_i out
        simp [Function.comp_def, out]
    rw [List.zipIdx_append, List.flatMap_append, List.countP_append, ← ih, Finset.sum_filter,
      Finset.sum_filter, List.length_append, List.length_singleton, Finset.sum_range_succ]
    congr 1
    · refine Finset.sum_congr rfl fun o ho => ?_
      rw [List.map_append, List.getElem?_append_left (by simpa using ho)]
    · simpa using last.symm

namespace Emission.Balanced

variable {adjacency : List (List Nat)} {prefers : Nat → Nat → Bool} {s : Emission}

private theorem foldl_release_append {before owed : List Nat}
    (h : Balanced adjacency (before ++ owed) s) :
    Balanced adjacency owed (before.foldl (Emission.release prefers) s) := by
  induction before generalizing s with
  | nil => exact h
  | cons p before ih => exact ih h.release

/-- In the middle of a call, the next arc that it consumes is still counted. -/
private theorem exists_remaining_eq_succ (bounded : Bounded adjacency) (h : Balanced adjacency [] s)
    {p q : Nat} {ready before after : List Nat} (hready : s.ready = p :: ready)
    (row : adjacency[p]?.getD [] = before ++ q :: after) :
    ∃ count, (before.foldl (Emission.release prefers)
      { s with ready, emitted := p :: s.emitted }).remaining[q]? = some (count + 1) := by
  have owing := h.emit bounded hready
  rw [row] at owing
  exact ⟨_, owing.foldl_release_append.remaining_owed⟩

private theorem length_emitted_le (h : Balanced adjacency [] s) :
    s.emitted.length ≤ adjacency.length := by
  have inside : s.emitted ⊆ List.range adjacency.length := fun p hp =>
    List.mem_range.mpr (h.legal.lt_of_mem p hp)
  simpa using (List.subperm_of_subset h.legal.nodup inside).length_le

end Emission.Balanced

/-- One call for the next vertex. A call at the end answers that there is none. -/
def nextVertex (g : Digraph V E) (prefers : Nat → Nat → Bool) (s : Emission) :
    Option V × Emission :=
  match g.emit? prefers s with
  | none => (none, s)
  | some (p, t) => (g.vertices[p]?, t)

/-- What a number of calls answers one after another, and the emission behind them. -/
def nextVertices (g : Digraph V E) (prefers : Nat → Nat → Bool) :
    Nat → List (Option V) × Emission
  | 0 => ([], g.emission prefers)
  | k + 1 =>
    let (answers, s) := g.nextVertices prefers k
    let (answer, t) := g.nextVertex prefers s
    (answers ++ [answer], t)

/-- Between two calls the emission is balanced, and the vertices that it emitted are those that
were answered. -/
structure Answered (g : Digraph V E) (answers : List (Option V)) (s : Emission) : Prop where
  balanced : Emission.Balanced g.adjacency [] s
  reduceOption_eq : answers.reduceOption = g.verticesAt s.emitted.reverse

private theorem Answered.nextVertex {g : Digraph V E} (h : g.WellFormed)
    {prefers : Nat → Nat → Bool} {answers : List (Option V)} {s : Emission}
    (answered : Answered g answers s) :
    Answered g (answers ++ [(g.nextVertex prefers s).1]) (g.nextVertex prefers s).2 := by
  unfold Digraph.nextVertex
  cases next : g.emit? prefers s with
  | none =>
    refine ⟨answered.balanced, ?_⟩
    rw [List.reduceOption_append, answered.reduceOption_eq]
    exact List.append_nil _
  | some found =>
    obtain ⟨p, t⟩ := found
    obtain ⟨balanced, emitted⟩ := answered.balanced.next? h.bounded next
    refine ⟨balanced, ?_⟩
    rw [List.reduceOption_append, answered.reduceOption_eq, emitted, List.reverse_cons,
      verticesAt, verticesAt, List.filterMap_append]
    cases g.vertices[p]? <;> rfl

private theorem WellFormed.answered_nextVertices {g : Digraph V E} (h : g.WellFormed)
    (prefers : Nat → Nat → Bool) (k : Nat) :
    Answered g (g.nextVertices prefers k).1 (g.nextVertices prefers k).2 := by
  induction k with
  | zero => exact ⟨balanced_emission prefers h, rfl⟩
  | succ k ih => exact ih.nextVertex h

private theorem Answered.length_emitted {g : Digraph V E} (h : g.WellFormed)
    {answers : List (Option V)} {s : Emission} (answered : Answered g answers s) :
    s.emitted.length = answers.reduceOption.length := by
  rw [answered.reduceOption_eq, length_verticesAt, List.length_reverse]
  intro p hp
  exact h.length_adjacency ▸ answered.balanced.legal.lt_of_mem p (List.mem_reverse.mp hp)

section Vertices

variable [DecidableEq V] {g : Digraph V E} {answers : List (Option V)} {s : Emission}

namespace Answered

variable (h : g.WellFormed) (answered : Answered g answers s)

include h answered

private theorem mem_iff {v : V} :
    v ∈ answers.reduceOption ↔ v ∈ g.vertices ∧ g.position v ∈ s.emitted := by
  rw [answered.reduceOption_eq, h.mem_verticesAt, List.mem_reverse]

private theorem remaining_eq {v : V} (hv : v ∈ g.vertices) :
    s.remaining[g.position v]? =
      some (g.arcs.countP fun (u, w, _) => w = v ∧ u ∉ answers.reduceOption) := by
  have inside : g.position v < g.adjacency.length :=
    h.length_adjacency.symm ▸ position_lt_order_iff.mpr hv
  rw [answered.balanced.remaining_eq _ inside, List.count_nil, Nat.add_zero,
    unconsumed_eq_countP]
  refine congrArg some (h.countP_arcs _ _ fun {origin arc u w} _ hu hw => ?_).symm
  have origin_eq : g.position u = origin := h.position_eq hu
  have ends : w = v ↔ arc.destination = g.position v := by
    rw [← h.position_eq hw]
    exact ⟨congrArg g.position, position_injective (List.mem_of_getElem? hw)⟩
  have out : u ∉ answers.reduceOption ↔ origin ∉ s.emitted := by
    rw [answered.mem_iff h, origin_eq]
    simp [List.mem_of_getElem? hu]
  simp only [ends, out]

private theorem mem_ready_iff {p : Nat} :
    p ∈ s.ready ↔ ∃ v ∈ g.vertices, g.position v = p ∧ v ∉ answers.reduceOption ∧
      s.remaining[p]? = some 0 := by
  rw [answered.balanced.mem_ready_iff]
  constructor
  · rintro ⟨out, zero⟩
    have inside : p < g.adjacency.length :=
      answered.balanced.length_remaining ▸ (List.getElem?_eq_some_iff.mp zero).1
    obtain ⟨v, hv, rfl⟩ := h.exists_position_eq inside
    exact ⟨v, hv, rfl, fun emitted => out ((answered.mem_iff h).mp emitted).2, zero⟩
  · rintro ⟨v, hv, rfl, out, zero⟩
    exact ⟨fun emitted => out ((answered.mem_iff h).mpr ⟨hv, emitted⟩), zero⟩

private theorem nodup : answers.reduceOption.Nodup := by
  rw [answered.reduceOption_eq]
  exact h.nodup_verticesAt (List.nodup_reverse.mpr answered.balanced.legal.nodup)

end Answered

/-- After any number of calls, the count of a vertex is that of its arcs from vertices that were not
emitted, what is ready are the vertices not emitted that have none left, each once, and no more
vertices were emitted than there are. Every arc that a next call consumes is counted at that
moment, so no count is lowered below zero. -/
theorem nextVertices_counts_down (built : g.Built) (prefers : Nat → Nat → Bool) (k : Nat) :
    let emitted := (g.nextVertices prefers k).1.reduceOption
    let s := (g.nextVertices prefers k).2
    (∀ v ∈ g.vertices, s.remaining[g.position v]? =
        some (g.arcs.countP fun (u, w, _) => w = v ∧ u ∉ emitted)) ∧
      (∀ p ready before q after, s.ready = p :: ready →
        g.adjacency[p]?.getD [] = before ++ q :: after →
        ∃ count, (before.foldl (Emission.release prefers)
          { s with ready, emitted := p :: s.emitted }).remaining[q]? = some (count + 1)) ∧
      (∀ p, p ∈ s.ready ↔ ∃ v ∈ g.vertices, g.position v = p ∧ v ∉ emitted ∧
        s.remaining[p]? = some 0) ∧
      s.ready.Nodup ∧ emitted.Nodup ∧ s.emitted.length = emitted.length ∧
      s.emitted.length ≤ g.order := by
  intro emitted s
  have formed := built.wellFormed
  have answered := formed.answered_nextVertices prefers k
  refine ⟨fun v hv => answered.remaining_eq formed hv, fun p ready before q after hready row => ?_,
    fun p => answered.mem_ready_iff formed, answered.balanced.ready_nodup,
    answered.nodup formed, answered.length_emitted formed, ?_⟩
  · exact answered.balanced.exists_remaining_eq_succ formed.bounded hready row
  · exact formed.length_adjacency ▸ answered.balanced.length_emitted_le

theorem nextVertices_counts_down_loop :
    let g := (((({} : Digraph Nat Nat).putArc 0 1 5).putArc 1 1 6).putArc 1 2 7).putArc 0 2 8
    let s := (g.nextVertices prefersEarlier 2).2
    g.position 2 = 2 ∧ s.remaining[2]? = some 1 ∧
      s.remaining[g.position 2]? = some (g.arcs.countP fun (u, w, _) =>
        w = 2 ∧ u ∉ (g.nextVertices prefersEarlier 2).1.reduceOption) ∧
      s.emitted.length ≤ g.order := by
  intro g s
  have built : g.Built := .putArc 0 2 8 (.putArc 1 2 7 (.putArc 1 1 6 (.putArc 0 1 5 .empty)))
  obtain ⟨counts, -, -, -, -, -, bound⟩ := nextVertices_counts_down built prefersEarlier 2
  refine ⟨by decide, by decide, counts 2 (by decide), bound⟩

end Vertices

end ObjectRelational.Digraph
