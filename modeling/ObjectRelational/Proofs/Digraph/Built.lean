import ObjectRelational.Proofs.Digraph.Condensation
import ObjectRelational.Proofs.Digraph.TopologicalOrder

set_option autoImplicit false
set_option relaxedAutoImplicit false

/-!
The graphs that can be made with the operations, and what holds of all of them: their components
partition the vertices, their contraction collects the arcs between components, and an emission
keeps back exactly what hangs on a cycle.
-/

namespace ObjectRelational.Digraph

/-- The graphs that are made with the operations. Vertices may be of any type, since a contraction
has components as its vertices. -/
inductive Built : {V E : Type} → [DecidableEq V] → Digraph V E → Prop
  | empty {V E : Type} [DecidableEq V] : Built ({} : Digraph V E)
  | addVertex {V E : Type} [DecidableEq V] {g : Digraph V E} (v : V) :
      Built g → Built (g.addVertex v)
  | putArc {V E : Type} [DecidableEq V] {g : Digraph V E} (v w : V) (label : E) :
      Built g → Built (g.putArc v w label)
  | adjustArc {V E : Type} [DecidableEq V] {g : Digraph V E} (v w : V) (f : E → E) :
      Built g → Built (g.adjustArc v w f)
  | contract {V E : Type} [DecidableEq V] {g : Digraph V E} : Built g → Built g.contract

namespace Built

variable {V E : Type} [DecidableEq V] {g : Digraph V E}

theorem wellFormed (built : g.Built) : g.WellFormed := by
  induction built with
  | empty => exact .empty
  | addVertex v _ ih => exact ih.addVertex v
  | putArc v w label _ ih => exact ih.putArc v w label
  | adjustArc v w f _ ih => exact ih.adjustArc v w f
  | contract _ ih => exact ih.contract

private theorem ofVertices (vs : List V) : (Digraph.ofVertices vs : Digraph V E).Built :=
  ofVertices_induction .empty (fun v built => .addVertex v built) vs

theorem appendArc {g : Digraph V (List E)} (built : g.Built) (v w : V) (label : List E) :
    (g.appendArc v w label).Built := by
  unfold Digraph.appendArc
  split
  · exact .adjustArc v w _ built
  · exact .putArc v w label built

end Built

section Lay

variable {V E A : Type} [DecidableEq V] {lay : Digraph V E → A → Digraph V E}
  {origin destination : A → V}

/-- A step that adds the arc of an item to the graphs that have its ends. -/
structure Lays (lay : Digraph V E → A → Digraph V E) (origin destination : A → V) : Prop where
  built : ∀ {g a}, g.Built → (lay g a).Built
  vertices : ∀ {g a}, origin a ∈ g.vertices → destination a ∈ g.vertices →
    (lay g a).vertices = g.vertices
  arcs : ∀ {g a}, g.Built → origin a ∈ g.vertices → destination a ∈ g.vertices → ∀ x y,
    (lay g a).hasArc x y = true ↔ g.hasArc x y = true ∨ (origin a = x ∧ destination a = y)

namespace Lays

private theorem foldl (lays : Lays lay origin destination) {g : Digraph V E} (built : g.Built)
    {items : List A} (inside : ∀ a ∈ items, origin a ∈ g.vertices ∧ destination a ∈ g.vertices) :
    (items.foldl lay g).Built ∧ (items.foldl lay g).vertices = g.vertices ∧
      ∀ x y, (items.foldl lay g).hasArc x y = true ↔
        g.hasArc x y = true ∨ ∃ a ∈ items, origin a = x ∧ destination a = y := by
  induction items generalizing g with
  | nil => simp [built]
  | cons a items ih =>
    obtain ⟨first, last⟩ := inside a List.mem_cons_self
    have vertices := lays.vertices first last
    obtain ⟨all_built, all_vertices, all_arcs⟩ := ih (lays.built built) fun b member =>
      vertices.symm ▸ inside b (List.mem_cons_of_mem _ member)
    refine ⟨all_built, all_vertices.trans vertices, fun x y => ?_⟩
    rw [List.foldl_cons, all_arcs, lays.arcs built first last, or_assoc]
    simp

/-- A graph laid out on distinct vertices has the arcs of the items and no others. -/
theorem foldl_ofVertices (lays : Lays lay origin destination) {vs : List V} (distinct : vs.Nodup)
    {items : List A} (inside : ∀ a ∈ items, origin a ∈ vs ∧ destination a ∈ vs) :
    (items.foldl lay (.ofVertices vs)).Built ∧ (items.foldl lay (.ofVertices vs)).vertices = vs ∧
      ∀ x y, (items.foldl lay (.ofVertices vs)).hasArc x y = true ↔
        ∃ a ∈ items, origin a = x ∧ destination a = y := by
  have vertices := vertices_ofVertices (E := E) distinct
  obtain ⟨built, same, arcs⟩ := lays.foldl (Built.ofVertices vs) fun a member =>
    vertices.symm ▸ inside a member
  refine ⟨built, same.trans vertices, fun x y => (arcs x y).trans (or_iff_right ?_)⟩
  rw [hasArc, label?, labelAt?_ofVertices]
  exact Bool.false_ne_true

end Lays

end Lay

variable {V E : Type} [DecidableEq V] {g : Digraph V E}

/-- The components partition the vertices into classes of mutual reachability. The members of each
stand in the order of the vertices, and so do the first members. -/
theorem components_partition (built : g.Built) :
    g.vertices.Nodup ∧ g.components.flatten.Perm g.vertices ∧
      (∀ c ∈ g.components, c ≠ [] ∧ c.Sublist g.vertices) ∧
      (g.components.filterMap List.head?).Sublist g.vertices ∧
      ∀ v ∈ g.vertices, ∀ w ∈ g.vertices,
        (∃ c ∈ g.components, v ∈ c ∧ w ∈ c) ↔ g.Reaches v w ∧ g.Reaches w v := by
  have formed := built.wellFormed
  refine ⟨formed.vertices_nodup, formed.components_perm, fun c hc => ⟨?_, ?_⟩,
    formed.heads_sublist, fun v hv w _ => ?_⟩
  · exact formed.component_ne_nil c hc
  · exact formed.component_sublist c hc
  · exact formed.exists_component_iff_mutual hv

theorem components_partition_tail :
    let g := ((({} : Digraph Nat Nat).putArc 0 1 5).putArc 1 0 6).putArc 2 0 7
    g.vertices = [0, 1, 2] ∧ g.components.flatten.Perm g.vertices ∧
      ((∃ c ∈ g.components, 0 ∈ c ∧ 1 ∈ c) ↔ g.Reaches 0 1 ∧ g.Reaches 1 0) := by
  intro g
  have built : g.Built := .putArc 2 0 7 (.putArc 1 0 6 (.putArc 0 1 5 .empty))
  have partition := components_partition built
  refine ⟨rfl, partition.2.1, partition.2.2.2.2 0 ?_ 1 ?_⟩
  · decide
  · decide

/-- The contraction has the components as vertices, and between two of them the labels of all arcs
between their members, none lost and none twice. It has no cycle, and a second contraction changes
neither the number of vertices nor that of arcs. -/
theorem contract_collects (built : g.Built) :
    g.contract.vertices = g.components ∧
      (∀ c ∈ g.components, ∀ d ∈ g.components,
        (g.contract.hasArc c d = true ↔ c ≠ d ∧ ∃ v ∈ c, ∃ w ∈ d, g.hasArc v w = true) ∧
        (g.contract.hasArc c d = true → g.contract.label? c d = some (g.labelsBetween c d))) ∧
      (g.contract.arcs.flatMap (·.2.2)).Perm
        ((g.arcs.filter fun arc => ¬ ∃ c ∈ g.components, arc.1 ∈ c ∧ arc.2.1 ∈ c).map
          (·.2.2)) ∧
      g.contract.Acyclic ∧
      g.contract.contract.vertices = g.contract.vertices.map ([·]) ∧
      g.contract.contract.order = g.contract.order ∧
      g.contract.contract.size = g.contract.size := by
  have formed := built.wellFormed
  have acyclic := formed.contract_acyclic
  have singletons := (formed.contract.vertices_contract).trans
    (formed.contract.components_of_acyclic acyclic)
  refine ⟨formed.vertices_contract, fun c hc d hd => ⟨formed.hasArc_contract hc hd, fun arc => ?_⟩,
    formed.labels_contract_perm, acyclic, singletons, ?_,
    formed.contract.size_contract_of_acyclic acyclic⟩
  · have label := formed.label?_contract hc hd
    rw [hasArc, label] at arc
    rw [label]
    split at arc
    · cases arc
    · rename_i something
      exact if_neg something
  · rw [order, singletons, List.length_map, order]

theorem contract_collects_outside :
    let g := (((({} : Digraph Nat Nat).putArc 0 1 5).putArc 1 0 6).putArc 2 0 7).putArc 2 1 8
    g.contract.vertices = g.components ∧ g.contract.Acyclic ∧
      g.contract.contract.size = g.contract.size := by
  intro g
  have built : g.Built := .putArc 2 1 8 (.putArc 2 0 7 (.putArc 1 0 6 (.putArc 0 1 5 .empty)))
  obtain ⟨vertices, -, -, acyclic, -, -, size⟩ := contract_collects built
  exact ⟨vertices, acyclic, size⟩

/-- Whatever is preferred among the vertices that are ready, an order comes out exactly without
cycles, and it lists every vertex once and behind its predecessors. With a cycle the error counts
the vertices that hang on one, and all others are emitted. -/
theorem topologicalOrder_complete (built : g.Built) (prefers : Nat → Nat → Bool) :
    ((∃ vs, g.topologicalOrder prefers = .ok vs) ↔ g.Acyclic) ∧
      (∀ vs, g.topologicalOrder prefers = .ok vs → vs.Perm g.vertices ∧
        ∀ v w, g.hasArc v w = true → [v, w].Sublist vs) ∧
      (¬ g.Acyclic →
        g.topologicalOrder prefers = .error ⟨{v | g.HeldBack v}.ncard, g.order⟩) ∧
      (∃ last, Emission.Emits g.adjacency prefers (g.emission prefers)
          (g.emittedPositions prefers) last ∧ g.emit? prefers last = none) ∧
      (g.emittedVertices prefers).Nodup ∧
      (∀ v, v ∈ g.emittedVertices prefers ↔ v ∈ g.vertices ∧ ¬ g.HeldBack v) ∧
      ∀ v w, g.hasArc v w = true → w ∈ g.emittedVertices prefers →
        [v, w].Sublist (g.emittedVertices prefers) := by
  have formed := built.wellFormed
  have ordered : ∀ vs, g.topologicalOrder prefers = .ok vs →
      g.Acyclic ∧ vs = g.emittedVertices prefers := by
    intro vs found
    by_cases acyclic : g.Acyclic
    · rw [formed.topologicalOrder_of_acyclic prefers acyclic] at found
      injection found with same
      exact ⟨acyclic, same.symm⟩
    · rw [formed.topologicalOrder_of_not_acyclic prefers acyclic] at found
      cases found
  refine ⟨⟨?_, ?_⟩, ?_, formed.topologicalOrder_of_not_acyclic prefers, ?_,
    formed.nodup_emittedVertices prefers, fun v => formed.mem_emittedVertices prefers,
    fun v w arc hw => formed.sublist_emittedVertices prefers arc hw⟩
  · rintro ⟨vs, found⟩
    exact (ordered vs found).1
  · intro acyclic
    exact ⟨_, formed.topologicalOrder_of_acyclic prefers acyclic⟩
  · intro vs found
    obtain ⟨acyclic, rfl⟩ := ordered vs found
    have perm := formed.emittedVertices_perm prefers acyclic
    refine ⟨perm, fun v w arc => formed.sublist_emittedVertices prefers arc ?_⟩
    exact perm.mem_iff.mpr (formed.mem_of_hasArc arc).2
  · obtain ⟨last, run, ended, -, -⟩ := emits_emittedPositions prefers formed
    exact ⟨last, run, ended⟩

theorem topologicalOrder_complete_tail :
    let g := ((({} : Digraph Nat Nat).putArc 3 0 4).putArc 0 1 5).putArc 1 0 6
    g.hasArc 0 1 = true ∧ g.hasArc 1 0 = true ∧
      g.topologicalOrder prefersEarlier = .error ⟨{v | g.HeldBack v}.ncard, g.order⟩ ∧
      (3 ∈ g.emittedVertices prefersEarlier ↔ 3 ∈ g.vertices ∧ ¬ g.HeldBack 3) := by
  intro g
  have built : g.Built := .putArc 1 0 6 (.putArc 0 1 5 (.putArc 3 0 4 .empty))
  have forth : g.hasArc 0 1 = true := by decide
  have back : g.hasArc 1 0 = true := by decide
  obtain ⟨-, -, error, -, -, emitted, -⟩ := topologicalOrder_complete built prefersEarlier
  refine ⟨forth, back, error fun acyclic => ?_, emitted 3⟩
  exact acyclic 0 (.tail (.single forth) back)

end ObjectRelational.Digraph
