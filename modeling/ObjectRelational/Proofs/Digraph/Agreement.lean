import Mathlib.Data.List.Forall2
import ObjectRelational.Proofs.Digraph.Condensation
import ObjectRelational.Proofs.Digraph.Greedy

set_option autoImplicit false
set_option relaxedAutoImplicit false

/-!
Graphs with the same vertices and arcs. Labels and the order of the arcs leave no trace in the
components, in the contraction and in the order of emission; and where the least name decides
between components, the order of the vertices leaves none but inside the components.
-/

namespace ObjectRelational.Digraph

open Relation

variable {V E E' : Type} [DecidableEq V] {g : Digraph V E} {g' : Digraph V E'}

/-- The same vertices, in whatever order, and the same arcs between them. -/
structure Agrees (g : Digraph V E) (g' : Digraph V E') : Prop where
  vertices : g.vertices.Perm g'.vertices
  arcs : ∀ v w, g.hasArc v w = true ↔ g'.hasArc v w = true

namespace Agrees

private theorem symm (agrees : Agrees g g') : Agrees g' g :=
  ⟨agrees.vertices.symm, fun v w => (agrees.arcs v w).symm⟩

private theorem order_eq (agrees : Agrees g g') : g.order = g'.order := agrees.vertices.length_eq

private theorem hasArc_eq (agrees : Agrees g g') :
    (fun v w => g.hasArc v w = true) = fun v w => g'.hasArc v w = true := by
  funext v w
  exact propext (agrees.arcs v w)

private theorem mutual_iff (agrees : Agrees g g') {v w : V} : g.Mutual v w ↔ g'.Mutual v w := by
  unfold Mutual Reaches
  rw [agrees.hasArc_eq]

private theorem acyclic_iff (agrees : Agrees g g') : g.Acyclic ↔ g'.Acyclic := by
  unfold Acyclic OnCycle
  rw [agrees.hasArc_eq]

private theorem leads (agrees : Agrees g g') (h : g.WellFormed) (same : g.vertices = g'.vertices)
    {p q : Nat} (leads : Leads g.adjacency p q) : Leads g'.adjacency p q := by
  obtain ⟨v, -, rfl⟩ := h.exists_position_eq leads.origin_lt
  obtain ⟨w, -, rfl⟩ := h.exists_position_eq (h.bounded _ _ leads)
  have arc := (agrees.arcs v w).mp (hasArc_iff_leads.mpr leads)
  rw [position, position, same]
  exact hasArc_iff_leads.mp arc

/-! Vertices in the same order. -/

section SameOrder

variable (agrees : Agrees g g') (h : g.WellFormed) (h' : g'.WellFormed)
  (same : g.vertices = g'.vertices)

include agrees h h' same

private theorem leads_iff (p q : Nat) : Leads g.adjacency p q ↔ Leads g'.adjacency p q :=
  ⟨agrees.leads h same, agrees.symm.leads h' same.symm⟩

theorem size_eq : g.size = g'.size :=
  h.size_eq h' agrees.order_eq (agrees.leads_iff h h' same)

theorem components_eq : g.components = g'.components := by
  have lengths : g.adjacency.length = g'.adjacency.length := by
    rw [h.length_adjacency, h'.length_adjacency, agrees.order_eq]
  have positions : g.componentPositions = g'.componentPositions :=
    (h.strongPartition.congr lengths (agrees.leads_iff h h' same)).unique h'.strongPartition
  have vertices : g.verticesAt = g'.verticesAt := by
    funext ps
    rw [verticesAt, verticesAt, same]
  rw [components, components, positions, vertices]

theorem emittedVertices_eq {prefers : Nat → Nat → Bool} (linear : Linear prefers)
    (acyclic : g.Acyclic) : g.emittedVertices prefers = g'.emittedVertices prefers := by
  have positions : g.position = g'.position := by
    funext v
    rw [position, position, same]
  have opens : g.Open = g'.Open := by
    funext taken v
    unfold Open
    simp only [same, agrees.arcs]
  have greedy := h.greedy_emittedVertices linear
  have greedy' := h'.greedy_emittedVertices linear
  rw [opens, positions] at greedy
  have all := (h.length_emittedVertices_iff prefers).mpr acyclic
  have all' := (h'.length_emittedVertices_iff prefers).mpr (agrees.acyclic_iff.mp acyclic)
  have lengths : (g.emittedVertices prefers).reverse.length =
      (g'.emittedVertices prefers).reverse.length := by
    rw [List.length_reverse, List.length_reverse, all, all', agrees.order_eq]
  have reversed := greedy.eq_of_length (fun v w => linear.asymm _ _) greedy' lengths
  exact List.reverse_injective reversed

end SameOrder

end Agrees

/-! Vertices in any order. -/

private theorem prefersBy_position_iff {K : Type} [Ord K] {key : V → K} {v w : V}
    (hv : v ∈ g.vertices) (hw : w ∈ g.vertices) (apart : compare (key v) (key w) ≠ .eq) :
    g.prefersBy key (g.position v) (g.position w) = true ↔ compare (key v) (key w) = .lt := by
  have place : ∀ {v}, v ∈ g.vertices → (g.vertices.map key)[g.position v]? = some (key v) := by
    intro v hv
    rw [List.getElem?_map, getElem?_position hv]
    rfl
  rw [prefersBy, prefersKey, place hv, place hw]
  change ((compare (key v) (key w)).then _).isLT = true ↔ _
  cases order : compare (key v) (key w) with
  | lt => simp
  | eq => exact absurd order apart
  | gt => simp

/-- Components with the same members. -/
def Corresponds (g : Digraph V E) (g' : Digraph V E') (c d : List V) : Prop :=
  c ∈ g.components ∧ d ∈ g'.components ∧ c.Perm d

namespace Corresponds

omit [DecidableEq V]

private theorem symm {c d : List V} (both : Corresponds g g' c d) : Corresponds g' g d c :=
  ⟨both.2.1, both.1, both.2.2.symm⟩

private theorem unique (h : g.WellFormed) {c d e : List V} (first : Corresponds g g' c e)
    (second : Corresponds g g' d e) : c = d := by
  obtain ⟨v, hv⟩ := List.exists_mem_of_ne_nil c (h.component_ne_nil c first.1)
  have hvd : v ∈ d := second.2.2.mem_iff.mpr (first.2.2.mem_iff.mp hv)
  exact h.component_unique first.1 second.1 hv hvd

private theorem biUnique (h : g.WellFormed) (h' : g'.WellFormed) :
    Relator.BiUnique (Corresponds g g') :=
  ⟨fun _ _ _ first second => first.unique h second,
    fun _ _ _ first second => first.symm.unique h' second.symm⟩

end Corresponds

namespace Agrees

variable {c d c' d' : List V}

private theorem exists_corresponds (agrees : Agrees g g') (h : g.WellFormed) (h' : g'.WellFormed)
    (hc : c ∈ g.components) : ∃ c', Corresponds g g' c c' := by
  obtain ⟨v, hv⟩ := List.exists_mem_of_ne_nil c (h.component_ne_nil c hc)
  have vertex := agrees.vertices.mem_iff.mp ((h.component_sublist c hc).subset hv)
  obtain ⟨c', hc', hv', -⟩ := (h'.exists_component_iff_mutual vertex).mpr (.refl g' v)
  refine ⟨c', hc, hc', ?_⟩
  refine (List.perm_ext_iff_of_nodup ((h.component_sublist c hc).nodup h.vertices_nodup)
    ((h'.component_sublist c' hc').nodup h'.vertices_nodup)).mpr fun w => ?_
  rw [h.mem_component_iff_mutual hc hv, h'.mem_component_iff_mutual hc' hv', agrees.mutual_iff]

private theorem length_components_le (agrees : Agrees g g') (h : g.WellFormed)
    (h' : g'.WellFormed) : g.components.length ≤ g'.components.length := by
  have partner : ∀ c ∈ g.components, ∃ c', Corresponds g g' c c' := fun c hc =>
    agrees.exists_corresponds h h' hc
  choose! image corresponds using partner
  have distinct : (g.components.map image).Nodup :=
    h.components_nodup.map_on fun c hc d hd same =>
      (corresponds c hc).unique h (same ▸ corresponds d hd)
  have inside : g.components.map image ⊆ g'.components := by
    intro c' member
    obtain ⟨c, hc, rfl⟩ := List.mem_map.mp member
    exact (corresponds c hc).2.1
  have le := (List.subperm_of_subset distinct inside).length_le
  rwa [List.length_map] at le

private theorem hasArc_contract (agrees : Agrees g g') (h : g.WellFormed) (h' : g'.WellFormed)
    (first : Corresponds g g' c c') (second : Corresponds g g' d d')
    (arc : g.contract.hasArc c d = true) : g'.contract.hasArc c' d' = true := by
  obtain ⟨differ, v, hv, w, hw, arc⟩ := (h.hasArc_contract first.1 second.1).mp arc
  refine (h'.hasArc_contract first.2.1 second.2.1).mpr ⟨?_, v, first.2.2.mem_iff.mp hv, w,
    second.2.2.mem_iff.mp hw, (agrees.arcs v w).mp arc⟩
  rintro rfl
  exact differ (first.unique h second)

theorem contract (agrees : Agrees g g') (h : g.WellFormed) (h' : g'.WellFormed)
    (same : g.vertices = g'.vertices) : Agrees g.contract g'.contract := by
  have components := agrees.components_eq h h' same
  have itself : ∀ {c}, c ∈ g.components → Corresponds g g' c c := fun member =>
    ⟨member, components ▸ member, .refl _⟩
  refine ⟨.of_eq ?_, fun c d => ⟨fun arc => ?_, fun arc => ?_⟩⟩
  · rw [h.vertices_contract, h'.vertices_contract, components]
  · obtain ⟨hc, hd⟩ := h.contract.mem_of_hasArc arc
    rw [h.vertices_contract] at hc hd
    exact agrees.hasArc_contract h h' (itself hc) (itself hd) arc
  · obtain ⟨hc, hd⟩ := h'.contract.mem_of_hasArc arc
    rw [h'.vertices_contract, ← components] at hc hd
    exact agrees.symm.hasArc_contract h' h (itself hc).symm (itself hd).symm arc

private theorem exists_open (agrees : Agrees g g') (h : g.WellFormed) (h' : g'.WellFormed)
    {taken taken' : List (List V)} (alike : List.Forall₂ (Corresponds g g') taken taken')
    (opened : g.contract.Open taken c) :
    ∃ c', g'.contract.Open taken' c' ∧ Corresponds g g' c c' := by
  obtain ⟨hc, new, all⟩ := opened
  rw [h.vertices_contract] at hc
  obtain ⟨c', both⟩ := agrees.exists_corresponds h h' hc
  have unique := Corresponds.biUnique h h'
  refine ⟨c', ⟨?_, fun old => ?_, fun d' arc => ?_⟩, both⟩
  · rw [h'.vertices_contract]
    exact both.2.1
  · exact new ((List.rel_mem unique both alike).mpr old)
  · -- the arc comes from a component whose partner has an arc as well, and so was taken
    have hd' := (h'.contract.mem_of_hasArc arc).1
    rw [h'.vertices_contract] at hd'
    obtain ⟨d, back⟩ := agrees.symm.exists_corresponds h' h hd'
    have earlier := all d (agrees.symm.hasArc_contract h' h back both.symm arc)
    exact (List.rel_mem unique back.symm alike).mp earlier

/-- Where keys tell components apart that differ and only hang on their members, components that
correspond are emitted at the same places. -/
theorem forall₂_emittedVertices_contract {K : Type} [Ord K] [Std.TransOrd K]
    (agrees : Agrees g g') (h : g.WellFormed) (h' : g'.WellFormed) {key : List V → K}
    (invariant : ∀ {c d}, c.Perm d → key c = key d)
    (apart : ∀ c ∈ g.components, ∀ d ∈ g.components, c ≠ d → compare (key c) (key d) ≠ .eq) :
    List.Forall₂ (Corresponds g g') (g.contract.emittedVertices (g.contract.prefersBy key))
      (g'.contract.emittedVertices (g'.contract.prefersBy key)) := by
  let prefers := g.contract.prefersBy key
  let prefers' := g'.contract.prefersBy key
  have linear : Linear prefers := linear_prefersKey _
  have linear' : Linear prefers' := linear_prefersKey _
  have alike : ∀ {c d c' d'}, Corresponds g g' c c' → Corresponds g g' d d' → c ≠ d →
      prefers (g.contract.position c) (g.contract.position d) = true →
        prefers' (g'.contract.position c') (g'.contract.position d') = true := by
    intro c d c' d' first second differ preferred
    -- different keys decide, so that the places of the components play no part
    have order := apart c first.1 d second.1 differ
    have order' := order
    rw [invariant first.2.2, invariant second.2.2] at order'
    have vertices := h.vertices_contract
    have vertices' := h'.vertices_contract
    have less := (prefersBy_position_iff (vertices ▸ first.1) (vertices ▸ second.1) order).mp
      preferred
    rw [invariant first.2.2, invariant second.2.2] at less
    exact (prefersBy_position_iff (vertices' ▸ first.2.1) (vertices' ▸ second.2.1) order').mpr less
  have back : ∀ {taken taken' d}, List.Forall₂ (Corresponds g g') taken taken' →
      g'.contract.Open taken' d → ∃ c, g.contract.Open taken c ∧ Corresponds g g' c d := by
    intro taken taken' d same opened
    have flipped : List.Forall₂ (Corresponds g' g) taken' taken :=
      (same.imp fun _ _ both => both.symm).flip
    obtain ⟨c, opened', both⟩ := agrees.symm.exists_open h' h flipped opened
    exact ⟨c, opened', both.symm⟩
  have emitted := h.contract.emittedVertices_perm prefers h.contract_acyclic
  have emitted' := h'.contract.emittedVertices_perm prefers' h'.contract_acyclic
  have lengths : (g.contract.emittedVertices prefers).reverse.length =
      (g'.contract.emittedVertices prefers').reverse.length := by
    rw [List.length_reverse, List.length_reverse, emitted.length_eq, emitted'.length_eq,
      h.vertices_contract, h'.vertices_contract]
    exact Nat.le_antisymm (agrees.length_components_le h h')
      (agrees.symm.length_components_le h' h)
  have reversed := (h.contract.greedy_emittedVertices linear).forall₂
    (agrees.exists_open h h') back alike (fun _ _ => linear'.asymm _ _)
    (h'.contract.greedy_emittedVertices linear') lengths
  have forward := List.rel_reverse reversed
  rwa [List.reverse_reverse, List.reverse_reverse] at forward

end Agrees

end ObjectRelational.Digraph
