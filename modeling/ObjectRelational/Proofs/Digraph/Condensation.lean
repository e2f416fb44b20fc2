import ObjectRelational.Proofs.Digraph.Contraction

set_option autoImplicit false
set_option relaxedAutoImplicit false

/-!
A contraction has no cycle, since a cycle through several components would make them one. A graph
without a cycle has one component for each vertex, so contracting it changes no number.
-/

namespace ObjectRelational.Digraph

open Relation

private theorem StrongPartition.eq_map_singleton {adjacency components : List (List Nat)}
    (h : StrongPartition adjacency components) (acyclic : ∀ p, ¬ TransGen (Leads adjacency) p p) :
    components = (List.range adjacency.length).map ([·]) := by
  have single : ∀ c ∈ components, c = [c.headD 0] := by
    intro c hc
    match c, h.ne_nil c hc with
    | [_], _ => rfl
    | p :: q :: rest, _ =>
      have lt : p < q := (List.pairwise_cons.mp (h.sorted _ hc)).1 q List.mem_cons_self
      obtain ⟨forth, back⟩ := (h.strong _ hc p List.mem_cons_self q).mp (by simp)
      rcases reflTransGen_iff_eq_or_transGen.mp forth with same | cycle
      · exact absurd same.symm (Nat.ne_of_lt lt)
      · exact absurd (cycle.trans_left back) (acyclic p)
  have lists : components = (components.map (·.headD 0)).map ([·]) := by
    rw [List.map_map]
    exact (List.map_id _).symm.trans (List.map_congr_left single)
  have flat : components.flatten = components.map (·.headD 0) := by
    conv_lhs => rw [lists]
    rw [← List.flatMap_def, List.flatMap_singleton']
  have perm := h.perm
  rw [flat] at perm
  have heads := (sublist_range (List.pairwise_map.mpr h.heads) fun p hp =>
    List.mem_range.mp (perm.mem_iff.mp hp)).eq_of_length perm.length_eq
  rw [lists, heads]

variable {V E : Type} [DecidableEq V] {g : Digraph V E}

namespace WellFormed

private theorem reaches_of_reaches_contract (h : g.WellFormed) {c d : List V}
    (hc : c ∈ g.components) (walk : g.contract.Reaches c d) :
    d ∈ g.components ∧ ∀ v ∈ c, ∀ w ∈ d, g.Reaches v w := by
  have connected : ∀ c ∈ g.components, ∀ v ∈ c, ∀ w ∈ c, g.Reaches v w := by
    intro c hc v hv w hw
    have member := (h.component_sublist c hc).subset hv
    exact ((h.exists_component_iff_mutual member).mp ⟨c, hc, hv, hw⟩).1
  induction walk with
  | refl => exact ⟨hc, connected c hc⟩
  | tail _ arc ih =>
    obtain ⟨hd, reaches⟩ := ih
    have he := (h.contract.mem_of_hasArc arc).2
    rw [h.vertices_contract] at he
    obtain ⟨-, v, hv, w, hw, arc⟩ := (h.hasArc_contract hd he).mp arc
    refine ⟨he, fun first hfirst last hlast => ?_⟩
    exact ((reaches first hfirst v hv).tail arc).trans (connected _ he w hw last hlast)

theorem contract_acyclic (h : g.WellFormed) : g.contract.Acyclic := by
  intro c cycle
  obtain ⟨d, arc, back⟩ := TransGen.head'_iff.mp cycle
  obtain ⟨hc, hd⟩ := h.contract.mem_of_hasArc arc
  rw [h.vertices_contract] at hc hd
  obtain ⟨different, v, hv, w, hw, arc⟩ := (h.hasArc_contract hc hd).mp arc
  have reaches := (h.reaches_of_reaches_contract hd back).2 w hw v hv
  -- the arc and the walk back put both ends into one component, so the two meet
  have member := (h.component_sublist c hc).subset hv
  obtain ⟨e, he, hve, hwe⟩ := (h.exists_component_iff_mutual member).mpr ⟨.single arc, reaches⟩
  exact different ((h.component_unique hc he hv hve).trans (h.component_unique he hd hwe hw))

private theorem not_transGen_self (h : g.WellFormed) (acyclic : g.Acyclic) (p : Nat) :
    ¬ TransGen (Leads g.adjacency) p p := by
  intro cycle
  obtain ⟨v, -, rfl⟩ := h.exists_position_eq (h.bounded.lt_of_transGen cycle)
  exact acyclic v (h.transGen_iff.mpr cycle)

private theorem componentPositions_of_acyclic (h : g.WellFormed) (acyclic : g.Acyclic) :
    g.componentPositions = (List.range g.order).map ([·]) := by
  rw [h.strongPartition.eq_map_singleton (h.not_transGen_self acyclic), h.length_adjacency]

theorem components_of_acyclic (h : g.WellFormed) (acyclic : g.Acyclic) :
    g.components = g.vertices.map ([·]) := by
  rw [components, h.componentPositions_of_acyclic acyclic]
  apply List.ext_getElem?
  intro p
  by_cases inside : p < g.vertices.length
  · simp [verticesAt, order, inside]
  · simp [order, inside]

/-- A graph without loops has no cycle exactly when its components are single vertices. -/
theorem acyclic_iff_length_le_one (h : g.WellFormed) (loopless : ∀ v, ¬ g.hasArc v v = true) :
    g.Acyclic ↔ ∀ c ∈ g.components, c.length ≤ 1 := by
  constructor
  · intro acyclic c hc
    rw [h.components_of_acyclic acyclic] at hc
    obtain ⟨v, -, rfl⟩ := List.mem_map.mp hc
    exact Nat.le_refl 1
  · intro single v cycle
    obtain ⟨w, arc, back⟩ := TransGen.head'_iff.mp cycle
    have member := (h.mem_of_hasArc arc).1
    obtain ⟨c, hc, hv, hw⟩ := (h.exists_component_iff_mutual member).mpr ⟨.single arc, back⟩
    obtain ⟨u, rfl⟩ := List.length_eq_one_iff.mp
      (Nat.le_antisymm (single c hc) (List.length_pos_of_mem hv))
    rw [List.mem_singleton.mp hv, List.mem_singleton.mp hw] at arc
    exact loopless u arc

theorem size_contract_of_acyclic (h : g.WellFormed) (acyclic : g.Acyclic) :
    g.contract.size = g.size := by
  have positions := h.componentPositions_of_acyclic acyclic
  have number : ∀ p < g.adjacency.length, componentOf g.componentPositions p = p := by
    intro p inside
    refine h.strongPartition.componentOf_eq ?_ (List.mem_singleton_self p)
    rw [positions, List.getElem?_map, ← h.length_adjacency, List.getElem?_range inside]
    rfl
  have order_eq : g.contract.order = g.order := by
    rw [order, h.vertices_contract, h.components_of_acyclic acyclic, List.length_map, order]
  refine h.contract.size_eq h order_eq fun i j => ?_
  rw [h.leads_contract_iff]
  constructor
  · rintro ⟨-, p, q, leads, rfl, rfl⟩
    rwa [number p leads.origin_lt, number q (h.bounded p q leads)]
  · intro leads
    refine ⟨?_, i, j, leads, number i leads.origin_lt, number j (h.bounded i j leads)⟩
    rintro rfl
    exact h.not_transGen_self acyclic i (.single leads)

end WellFormed

end ObjectRelational.Digraph
