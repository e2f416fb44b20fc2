import Mathlib.Data.Set.Card
import ObjectRelational.Proofs.Digraph.Emission
import ObjectRelational.Proofs.Digraph.StrongComponents

set_option autoImplicit false
set_option relaxedAutoImplicit false

/-!
What an emission reaches, as vertices: those that hang on no cycle, each behind its predecessors.
An order comes out exactly of an acyclic graph, and an error counts the vertices kept back. The
preference among ready vertices is arbitrary throughout.
-/

namespace ObjectRelational.Digraph

open Relation

variable {V E : Type}

section Positions

variable {g : Digraph V E} (prefers : Nat → Nat → Bool)

theorem balanced_emission (h : g.WellFormed) :
    Emission.Balanced g.adjacency [] (g.emission prefers) := by
  have start := Emission.Balanced.start g.adjacency prefers
  rw [h.length_adjacency, ← h.indegrees_eq] at start
  exact start

/-- The run behind the emitted positions, which ends because nothing is ready. -/
theorem emits_emittedPositions (h : g.WellFormed) :
    ∃ last, Emission.Emits g.adjacency prefers (g.emission prefers)
        (g.emittedPositions prefers) last ∧
      g.emit? prefers last = none ∧ Emission.Balanced g.adjacency [] last ∧
      last.emitted = (g.emittedPositions prefers).reverse := by
  obtain ⟨ps, run, ended⟩ :=
    Emission.emits_drain g.adjacency prefers (g.emission prefers)
  obtain ⟨balanced, emitted⟩ := (balanced_emission prefers h).emits h.bounded run
  have nothing : (g.emission prefers).emitted = [] := rfl
  rw [nothing, List.append_nil] at emitted
  have positions : g.emittedPositions prefers = ps := by
    rw [emittedPositions, emitted, List.reverse_reverse]
  rw [positions]
  exact ⟨_, run, ended, balanced, emitted⟩

private theorem legal_emittedPositions (h : g.WellFormed) :
    Legal g.adjacency (g.emittedPositions prefers).reverse := by
  obtain ⟨last, -, -, balanced, emitted⟩ := emits_emittedPositions prefers h
  exact emitted ▸ balanced.legal

theorem mem_emittedPositions (h : g.WellFormed) {p : Nat} :
    p ∈ g.emittedPositions prefers ↔
      p < g.order ∧ ¬ ∃ c, TransGen (Leads g.adjacency) c c ∧ Walk g.adjacency c p := by
  obtain ⟨last, -, ended, balanced, emitted⟩ := emits_emittedPositions prefers h
  rw [← List.mem_reverse, ← emitted]
  constructor
  · intro hp
    have inside := balanced.legal.lt_of_mem p hp
    exact ⟨h.length_adjacency ▸ inside, (balanced.mem_emitted_iff ended inside).mp hp⟩
  · rintro ⟨inside, free⟩
    exact (balanced.mem_emitted_iff ended (h.length_adjacency.symm ▸ inside)).mpr free

theorem nodup_emittedPositions (h : g.WellFormed) : (g.emittedPositions prefers).Nodup :=
  List.nodup_reverse.mp (legal_emittedPositions prefers h).nodup

def emittedVertices (g : Digraph V E) (prefers : Nat → Nat → Bool) : List V :=
  g.verticesAt (g.emittedPositions prefers)

theorem length_emittedVertices (h : g.WellFormed) :
    (g.emittedVertices prefers).length = (g.emittedPositions prefers).length :=
  length_verticesAt fun _ hp => ((mem_emittedPositions prefers h).mp hp).1

end Positions

variable [DecidableEq V] {g : Digraph V E} (prefers : Nat → Nat → Bool)

/-- The vertex lies on a cycle or is reached from one. -/
def HeldBack (g : Digraph V E) (v : V) : Prop := ∃ c, g.OnCycle c ∧ g.Reaches c v

private theorem Acyclic.not_heldBack (h : g.Acyclic) (v : V) : ¬ g.HeldBack v := by
  rintro ⟨c, cycle, -⟩
  exact h c cycle

namespace WellFormed

private theorem mem_of_onCycle (h : g.WellFormed) {v : V} (cycle : g.OnCycle v) :
    v ∈ g.vertices := by
  obtain ⟨w, arc, -⟩ := TransGen.head'_iff.mp cycle
  exact (h.mem_of_hasArc arc).1

private theorem mem_of_heldBack (h : g.WellFormed) {v : V} (held : g.HeldBack v) :
    v ∈ g.vertices := by
  obtain ⟨c, cycle, reaches⟩ := held
  exact h.mem_of_reaches (h.mem_of_onCycle cycle) reaches

private theorem heldBack_iff (h : g.WellFormed) {v : V} :
    g.HeldBack v ↔
      ∃ c, TransGen (Leads g.adjacency) c c ∧ Walk g.adjacency c (g.position v) := by
  constructor
  · rintro ⟨c, cycle, reaches⟩
    exact ⟨g.position c, h.transGen_iff.mp cycle,
      (h.reaches_iff_walk (h.mem_of_onCycle cycle)).mp reaches⟩
  · rintro ⟨p, cycle, walk⟩
    obtain ⟨c, hc, rfl⟩ := h.exists_position_eq (h.bounded.lt_of_transGen cycle)
    exact ⟨c, h.transGen_iff.mpr cycle, (h.reaches_iff_walk hc).mpr walk⟩

theorem mem_emittedVertices (h : g.WellFormed) {v : V} :
    v ∈ g.emittedVertices prefers ↔ v ∈ g.vertices ∧ ¬ g.HeldBack v := by
  rw [emittedVertices, h.mem_verticesAt, mem_emittedPositions prefers h, position_lt_order_iff,
    h.heldBack_iff]
  constructor
  · rintro ⟨hv, -, free⟩
    exact ⟨hv, free⟩
  · rintro ⟨hv, free⟩
    exact ⟨hv, hv, free⟩

theorem nodup_emittedVertices (h : g.WellFormed) : (g.emittedVertices prefers).Nodup :=
  h.nodup_verticesAt (nodup_emittedPositions prefers h)

theorem sublist_emittedVertices (h : g.WellFormed) {v w : V} (arc : g.hasArc v w = true)
    (hw : w ∈ g.emittedVertices prefers) : [v, w].Sublist (g.emittedVertices prefers) := by
  obtain ⟨hv, hw'⟩ := h.mem_of_hasArc arc
  have position := (h.mem_verticesAt.mp hw).2
  have order := (legal_emittedPositions prefers h).sublist_of_leads
    (List.mem_reverse.mpr position) (hasArc_iff_leads.mp arc)
  have forward := (List.reverse_sublist.mpr order).filterMap (g.vertices[·]?)
  simp only [List.reverse_reverse, List.reverse_cons, List.reverse_nil, List.nil_append,
    List.singleton_append, List.filterMap_cons, List.filterMap_nil, getElem?_position hv,
    getElem?_position hw'] at forward
  exact forward

private theorem emittedVertices_append_perm (h : g.WellFormed) :
    (g.emittedVertices prefers ++ g.vertices.filter (· ∉ g.emittedVertices prefers)).Perm
      g.vertices := by
  have emitted : (g.vertices.filter (· ∈ g.emittedVertices prefers)).Perm
      (g.emittedVertices prefers) := by
    refine (List.perm_ext_iff_of_nodup (h.vertices_nodup.filter _)
      (h.nodup_emittedVertices prefers)).mpr fun v => ?_
    rw [List.mem_filter, decide_eq_true_eq]
    exact ⟨And.right, fun hv => ⟨((h.mem_emittedVertices prefers).mp hv).1, hv⟩⟩
  have split := List.filter_append_perm (· ∈ g.emittedVertices prefers) g.vertices
  simp only [← decide_not] at split
  exact (emitted.symm.append_right _).trans split

private theorem ncard_heldBack (h : g.WellFormed) :
    (g.emittedVertices prefers).length + {v | g.HeldBack v}.ncard = g.order := by
  have kept : {v | g.HeldBack v} =
      ↑(g.vertices.filter (· ∉ g.emittedVertices prefers)).toFinset := by
    ext v
    rw [List.coe_toFinset, Set.mem_ofPred_eq, Set.mem_ofPred_eq, List.mem_filter,
      decide_eq_true_eq, h.mem_emittedVertices, not_and, not_not]
    constructor
    · intro held
      exact ⟨h.mem_of_heldBack held, fun _ => held⟩
    · rintro ⟨hv, held⟩
      exact held hv
  rw [kept, Set.ncard_coe_finset, List.toFinset_card_of_nodup (h.vertices_nodup.filter _),
    ← List.length_append]
  exact (h.emittedVertices_append_perm prefers).length_eq

/-- Every vertex is emitted exactly when there is no cycle. -/
theorem length_emittedVertices_iff (h : g.WellFormed) :
    (g.emittedVertices prefers).length = g.order ↔ g.Acyclic := by
  have count := h.ncard_heldBack prefers
  constructor
  · intro all v cycle
    have finite : {v | g.HeldBack v}.Finite :=
      g.vertices.finite_toSet.subset fun v => h.mem_of_heldBack
    have empty := (Set.ncard_eq_zero finite).mp (by omega)
    have held : v ∈ {v | g.HeldBack v} := ⟨v, cycle, .refl⟩
    rw [empty] at held
    exact held
  · intro acyclic
    have empty : {v | g.HeldBack v} = ∅ :=
      Set.eq_empty_of_forall_notMem fun v => acyclic.not_heldBack v
    rw [empty, Set.ncard_empty] at count
    exact count

theorem emittedVertices_perm (h : g.WellFormed) (acyclic : g.Acyclic) :
    (g.emittedVertices prefers).Perm g.vertices := by
  refine (List.perm_ext_iff_of_nodup (h.nodup_emittedVertices prefers)
    h.vertices_nodup).mpr fun v => ?_
  rw [h.mem_emittedVertices]
  exact and_iff_left (acyclic.not_heldBack v)

theorem topologicalOrder_of_acyclic (h : g.WellFormed) (acyclic : g.Acyclic) :
    g.topologicalOrder prefers = .ok (g.emittedVertices prefers) := by
  have all := (h.length_emittedVertices_iff prefers).mpr acyclic
  rw [length_emittedVertices prefers h] at all
  exact if_pos all

theorem topologicalOrder_of_not_acyclic (h : g.WellFormed) (cyclic : ¬ g.Acyclic) :
    g.topologicalOrder prefers = .error ⟨{v | g.HeldBack v}.ncard, g.order⟩ := by
  have count := h.ncard_heldBack prefers
  have some_held := mt (h.length_emittedVertices_iff prefers).mp cyclic
  rw [length_emittedVertices prefers h] at count some_held
  have unsorted : g.order - (g.emittedPositions prefers).length = {v | g.HeldBack v}.ncard := by
    omega
  rw [← unsorted]
  exact if_neg some_held

end WellFormed

end ObjectRelational.Digraph
