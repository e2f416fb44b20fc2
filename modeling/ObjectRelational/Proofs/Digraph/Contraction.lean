import ObjectRelational.Digraph.StrongComponents
import ObjectRelational.Proofs.Digraph.Arcs
import ObjectRelational.Proofs.Digraph.StrongComponents

set_option autoImplicit false
set_option relaxedAutoImplicit false

/-!
The contraction collects arcs one by one. After any number of them the label between two numbers is
the list of the labels met so far between the components with these numbers, and no label is kept
twice or lost.
-/

namespace ObjectRelational.Digraph

open Relation

namespace StrongPartition

variable {adjacency components : List (List Nat)} {p q : Nat}

private theorem exists_componentOf (h : StrongPartition adjacency components)
    (inside : p < adjacency.length) :
    ∃ c, components[componentOf components p]? = some c ∧ p ∈ c := by
  obtain ⟨c, hc, hp⟩ := List.mem_flatten.mp (h.mem_flatten.mpr inside)
  have found : componentOf components p < components.length :=
    List.findIdx_lt_length_of_exists ⟨c, hc, by simpa using hp⟩
  refine ⟨_, List.getElem?_eq_getElem found, ?_⟩
  exact List.contains_iff_mem.mp (List.findIdx_getElem (w := found))

private theorem componentOf_lt (h : StrongPartition adjacency components)
    (inside : p < adjacency.length) : componentOf components p < components.length := by
  obtain ⟨c, found, -⟩ := h.exists_componentOf inside
  exact (List.getElem?_eq_some_iff.mp found).1

private theorem componentOf_eq_iff_walks (h : StrongPartition adjacency components)
    (hp : p < adjacency.length) (hq : q < adjacency.length) :
    componentOf components p = componentOf components q ↔
      Walk adjacency p q ∧ Walk adjacency q p := by
  obtain ⟨c, hc, hpc⟩ := h.exists_componentOf hp
  obtain ⟨d, hd, hqd⟩ := h.exists_componentOf hq
  have strong := h.strong c (List.mem_of_getElem? hc) p hpc
  constructor
  · intro same
    rw [same, hd] at hc
    obtain rfl := Option.some.inj hc
    exact (strong q).mp hqd
  · rintro ⟨forth, back⟩
    refine Nat.le_antisymm (List.findIdx_le_findIdx fun e he member => ?_)
      (List.findIdx_le_findIdx fun e he member => ?_)
    · exact List.contains_iff_mem.mpr
        ((h.strong e he q (List.contains_iff_mem.mp member) p).mpr ⟨back, forth⟩)
    · exact List.contains_iff_mem.mpr
        ((h.strong e he p (List.contains_iff_mem.mp member) q).mpr ⟨forth, back⟩)

theorem componentOf_eq (h : StrongPartition adjacency components) {i : Nat} {c : List Nat}
    (hc : components[i]? = some c) (hp : p ∈ c) : componentOf components p = i := by
  -- components share no position, so the number is found from any member
  obtain ⟨d, hd, hpd⟩ := h.exists_componentOf (h.lt_of_mem (List.mem_of_getElem? hc) hp)
  obtain ⟨inside, rfl⟩ := List.getElem?_eq_some_iff.mp hc
  obtain ⟨inside', rfl⟩ := List.getElem?_eq_some_iff.mp hd
  have disjoint := List.pairwise_iff_getElem.mp (List.nodup_flatten.mp h.nodup_flatten).2
  rcases Nat.lt_trichotomy (componentOf components p) i with lt | same | gt
  · exact absurd hp (disjoint _ _ inside' inside lt hpd)
  · exact same
  · exact absurd hpd (disjoint _ _ inside inside' gt hp)

private theorem componentOf_eq_iff (h : StrongPartition adjacency components) {i : Nat}
    {c : List Nat} (hc : components[i]? = some c) (inside : p < adjacency.length) :
    componentOf components p = i ↔ p ∈ c := by
  refine ⟨?_, h.componentOf_eq hc⟩
  rintro rfl
  obtain ⟨d, hd, hpd⟩ := h.exists_componentOf inside
  rw [hc] at hd
  exact Option.some.inj hd ▸ hpd

end StrongPartition

section OfVertices

variable {V E : Type} [DecidableEq V]

private theorem wellFormed_ofVertices (vs : List V) : (ofVertices vs : Digraph V E).WellFormed :=
  ofVertices_induction .empty (fun v h => h.addVertex v) vs

theorem vertices_ofVertices {vs : List V} (distinct : vs.Nodup) :
    (ofVertices vs : Digraph V E).vertices = vs := by
  have fold : ∀ (vs : List V) {g : Digraph V E}, (g.vertices ++ vs).Nodup →
      (vs.foldl addVertex g).vertices = g.vertices ++ vs := by
    intro vs
    induction vs with
    | nil => exact fun _ => (List.append_nil _).symm
    | cons v vs ih =>
      intro g distinct
      have new : v ∉ g.vertices := fun old =>
        (List.disjoint_of_nodup_append distinct) old List.mem_cons_self
      have added : (g.addVertex v).vertices = g.vertices ++ [v] := by
        rw [vertices_addVertex, if_neg new]
      have split := List.append_cons g.vertices v vs
      rw [List.foldl_cons, ih (added ▸ split ▸ distinct), added, ← split]
  exact fold vs distinct

private theorem flatten_rows_ofVertices (vs : List V) :
    (ofVertices vs : Digraph V E).rows.flatten = [] := by
  refine ofVertices_induction (P := fun g : Digraph V E => g.rows.flatten = []) rfl ?_ vs
  intro g v empty
  unfold addVertex
  split
  · exact empty
  · simp [empty]

theorem labelAt?_ofVertices (vs : List V) (p q : Nat) :
    (ofVertices vs : Digraph V E).labelAt? p q = none := by
  refine ofVertices_induction (P := fun g : Digraph V E => g.labelAt? p q = none) rfl ?_ vs
  intro g v nothing
  rw [labelAt?_addVertex, nothing]

end OfVertices

section Labels

variable {V E : Type}

private theorem flatMap_flatten_modify_perm {rows : List (List (Arc (List E)))} {p : Nat}
    {row : List (Arc (List E))} (found : rows[p]? = some row)
    {change : List (Arc (List E)) → List (Arc (List E))} {labels : List E}
    (changed : ((change row).flatMap (·.label)).Perm (row.flatMap (·.label) ++ labels)) :
    ((rows.modify p change).flatten.flatMap (·.label)).Perm
      (rows.flatten.flatMap (·.label) ++ labels) := by
  induction rows generalizing p with
  | nil => simp at found
  | cons first rows ih =>
    cases p with
    | zero =>
      obtain rfl : first = row := by simpa using found
      simp only [List.modify_zero_cons, List.flatten_cons, List.flatMap_append]
      refine (changed.append_right _).trans ?_
      rw [List.append_assoc, List.append_assoc]
      exact List.perm_append_comm.append_left _
    | succ p =>
      have rest := ih (p := p) (by simpa using found)
      simp only [List.modify_succ_cons, List.flatten_cons, List.flatMap_append,
        List.append_assoc]
      exact rest.append_left _

private theorem flatMap_map_extend_perm {row : List (Arc (List E))} {destination : Nat}
    (simple : (row.map (·.destination)).Nodup) (present : destination ∈ row.map (·.destination))
    (labels : List E) :
    ((row.map fun arc => if arc.destination = destination then
        { arc with label := arc.label ++ labels } else arc).flatMap (·.label)).Perm
      (row.flatMap (·.label) ++ labels) := by
  induction row with
  | nil => simp at present
  | cons arc row ih =>
    rw [List.map_cons, List.nodup_cons] at simple
    rw [List.map_cons, List.flatMap_cons, List.flatMap_cons, List.append_assoc]
    by_cases ends : arc.destination = destination
    · have others : (row.map fun arc => if arc.destination = destination then
          { arc with label := arc.label ++ labels } else arc) = row := by
        refine (List.map_congr_left fun other member => ?_).trans (List.map_id row)
        refine if_neg fun same => simple.1 ?_
        exact ends ▸ same ▸ List.mem_map_of_mem member
      rw [others, if_pos ends, List.append_assoc]
      exact List.perm_append_comm.append_left _
    · rw [if_neg ends]
      have rest : destination ∈ row.map (·.destination) :=
        (List.mem_cons.mp present).resolve_left (Ne.symm ends)
      exact (ih simple.2 rest).append_left _

private theorem flatMap_label_appendArcAt_perm {c : Digraph V (List E)} (h : c.WellFormed)
    {origin destination : Nat} (inside : origin < c.order) (labels : List E) :
    ((c.appendArcAt origin destination labels).rows.flatten.flatMap (·.label)).Perm
      (c.rows.flatten.flatMap (·.label) ++ labels) := by
  obtain ⟨row, found⟩ : ∃ row, c.rows[origin]? = some row :=
    ⟨_, List.getElem?_eq_getElem (h.length_rows.symm ▸ inside)⟩
  have destinations : c.adjacency[origin]?.getD [] = row.map (·.destination) := by
    rw [adjacency_getD, Digraph.row, found]
    rfl
  unfold appendArcAt
  split
  · rename_i present
    have leads := isSome_labelAt?_iff.mp present
    have simple := h.row_nodup origin
    rw [Leads, destinations] at leads
    rw [destinations] at simple
    exact flatMap_flatten_modify_perm found (flatMap_map_extend_perm simple leads labels)
  · rename_i absent
    rw [putArcAt, if_neg absent]
    refine flatMap_flatten_modify_perm found (.of_eq ?_)
    rw [List.flatMap_append, List.flatMap_singleton]

/-- The labels that lead from one component to another, by their numbers. -/
def between (components : List (List Nat)) (arcs : List (Nat × Arc E)) (i j : Nat) : List E :=
  (arcs.filter fun arc => componentOf components arc.1 = i ∧
    componentOf components arc.2.destination = j).map (·.2.label)

/-- The labels that lead from a component to another one. -/
def crossing (components : List (List Nat)) (arcs : List (Nat × Arc E)) : List E :=
  (arcs.filter fun arc => componentOf components arc.1 ≠
    componentOf components arc.2.destination).map (·.2.label)

section Append

variable (components : List (List Nat)) (arcs : List (Nat × Arc E)) (arc : Nat × Arc E)

private theorem between_append_singleton (i j : Nat) :
    between components (arcs ++ [arc]) i j = between components arcs i j ++
      if componentOf components arc.1 = i ∧ componentOf components arc.2.destination = j then
        [arc.2.label]
      else [] := by
  rw [between, List.filter_append, List.map_append, List.filter_singleton]
  by_cases met : componentOf components arc.1 = i ∧
    componentOf components arc.2.destination = j <;> simp [met, between]

private theorem crossing_append_singleton :
    crossing components (arcs ++ [arc]) = crossing components arcs ++
      if componentOf components arc.1 = componentOf components arc.2.destination then []
      else [arc.2.label] := by
  rw [crossing, List.filter_append, List.map_append, List.filter_singleton]
  by_cases inner : componentOf components arc.1 = componentOf components arc.2.destination <;>
    simp [inner, crossing]

end Append

structure Collected (components : List (List Nat)) (vertices : List (List V))
    (arcs : List (Nat × Arc E)) (c : Digraph (List V) (List E)) : Prop where
  wellFormed : c.WellFormed
  vertices_eq : c.vertices = vertices
  labelAt?_eq : ∀ i j, c.labelAt? i j =
    if i = j ∨ between components arcs i j = [] then none else some (between components arcs i j)
  labels_perm : (c.rows.flatten.flatMap (·.label)).Perm (crossing components arcs)

namespace Collected

variable {components : List (List Nat)} {vertices : List (List V)} {arcs : List (Nat × Arc E)}
  {c : Digraph (List V) (List E)}

private theorem start [DecidableEq V] (distinct : vertices.Nodup) :
    Collected components vertices ([] : List (Nat × Arc E)) (ofVertices vertices) where
  wellFormed := wellFormed_ofVertices vertices
  vertices_eq := vertices_ofVertices distinct
  labelAt?_eq := fun i j => by rw [labelAt?_ofVertices, if_pos (.inr rfl)]
  labels_perm := by
    rw [flatten_rows_ofVertices]
    exact .nil

private theorem contractArc (h : Collected components vertices arcs c) {arc : Nat × Arc E}
    (origin_lt : componentOf components arc.1 < vertices.length)
    (destination_lt : componentOf components arc.2.destination < vertices.length) :
    Collected components vertices (arcs ++ [arc]) (contractArc components c arc) := by
  rw [← h.vertices_eq] at origin_lt destination_lt
  unfold Digraph.contractArc
  dsimp only
  split
  · rename_i inner
    refine ⟨h.wellFormed, h.vertices_eq, fun i j => ?_, ?_⟩
    · rw [h.labelAt?_eq, between_append_singleton]
      by_cases same : i = j
      · rw [if_pos (.inl same), if_pos (.inl same)]
      · have unrelated : ¬ (componentOf components arc.1 = i ∧
            componentOf components arc.2.destination = j) := by
          rintro ⟨rfl, rfl⟩
          exact same inner
        rw [if_neg unrelated, List.append_nil]
    · rw [crossing_append_singleton, if_pos inner, List.append_nil]
      exact h.labels_perm
  · rename_i outer
    refine ⟨h.wellFormed.appendArcAt origin_lt destination_lt _,
      (vertices_appendArcAt _ _ _ _).trans h.vertices_eq, fun i j => ?_, ?_⟩
    · rw [labelAt?_appendArcAt (h.wellFormed.length_rows.symm ▸ origin_lt), h.labelAt?_eq,
        between_append_singleton]
      by_cases met : i = componentOf components arc.1 ∧
        j = componentOf components arc.2.destination
      · obtain ⟨rfl, rfl⟩ := met
        by_cases first : between components arcs (componentOf components arc.1)
          (componentOf components arc.2.destination) = [] <;> simp [outer, first]
      · have unrelated : ¬ (componentOf components arc.1 = i ∧
            componentOf components arc.2.destination = j) := by
          rintro ⟨rfl, rfl⟩
          exact met ⟨rfl, rfl⟩
        rw [if_neg met, if_neg unrelated, List.append_nil]
    · rw [crossing_append_singleton, if_neg outer]
      exact (flatMap_label_appendArcAt_perm h.wellFormed origin_lt _).trans
        (h.labels_perm.append_right _)

private theorem foldl [DecidableEq V] (distinct : vertices.Nodup)
    (inside : ∀ arc ∈ arcs, componentOf components arc.1 < vertices.length ∧
      componentOf components arc.2.destination < vertices.length) :
    Collected components vertices arcs
      (arcs.foldl (Digraph.contractArc components) (ofVertices vertices)) := by
  induction arcs using List.reverseRecOn with
  | nil => exact start distinct
  | append_singleton arcs arc ih =>
    rw [List.foldl_append]
    obtain ⟨origin_lt, destination_lt⟩ := inside arc (by simp)
    exact (ih fun other member => inside other (List.mem_append_left _ member)).contractArc
      origin_lt destination_lt

end Collected

end Labels

section Contract

variable {V E : Type} [DecidableEq V] {g : Digraph V E}

namespace WellFormed

private theorem collected (h : g.WellFormed) :
    Collected g.componentPositions g.components g.positionedArcs g.contract := by
  refine Collected.foldl h.components_nodup fun arc member => ?_
  have leads := leads_iff_exists_arc.mpr ⟨arc.2, mem_positionedArcs.mp member, rfl⟩
  rw [length_components]
  exact ⟨h.strongPartition.componentOf_lt leads.origin_lt,
    h.strongPartition.componentOf_lt (h.bounded _ _ leads)⟩

theorem contract (h : g.WellFormed) : g.contract.WellFormed := h.collected.wellFormed

theorem vertices_contract (h : g.WellFormed) : g.contract.vertices = g.components :=
  h.collected.vertices_eq

theorem leads_contract_iff (h : g.WellFormed) {i j : Nat} :
    Leads g.contract.adjacency i j ↔ i ≠ j ∧ ∃ p q, Leads g.adjacency p q ∧
      componentOf g.componentPositions p = i ∧ componentOf g.componentPositions q = j := by
  have some_label : between g.componentPositions g.positionedArcs i j ≠ [] ↔
      ∃ p q, Leads g.adjacency p q ∧
        componentOf g.componentPositions p = i ∧ componentOf g.componentPositions q = j := by
    rw [between, ne_eq, List.map_eq_nil_iff, List.filter_eq_nil_iff]
    simp only [Prod.forall, decide_eq_true_eq, not_forall, not_not, exists_prop,
      mem_positionedArcs, leads_iff_exists_arc]
    constructor
    · rintro ⟨p, arc, member, hi, hj⟩
      exact ⟨p, _, ⟨arc, member, rfl⟩, hi, hj⟩
    · rintro ⟨p, q, ⟨arc, member, rfl⟩, hi, hj⟩
      exact ⟨p, arc, member, hi, hj⟩
  rw [← isSome_labelAt?_iff, h.collected.labelAt?_eq, ← some_label, ← not_or]
  split
  · rename_i nothing
    simp [nothing]
  · rename_i something
    simp [something]

private theorem exists_positions (h : g.WellFormed) {c : List V} (hc : c ∈ g.components) :
    ∃ ps, g.componentPositions[g.contract.position c]? = some ps ∧ c = g.verticesAt ps := by
  have found := getElem?_position (h.vertices_contract.symm ▸ hc)
  rw [h.vertices_contract, components, List.getElem?_map] at found
  obtain ⟨ps, hps, same⟩ := Option.map_eq_some_iff.mp found
  exact ⟨ps, hps, same.symm⟩

private theorem mem_component_iff (h : g.WellFormed) {c : List V} (hc : c ∈ g.components) {p : Nat}
    {v : V} (hv : g.vertices[p]? = some v) :
    v ∈ c ↔ componentOf g.componentPositions p = g.contract.position c := by
  obtain ⟨ps, hps, rfl⟩ := h.exists_positions hc
  have inside : p < g.adjacency.length :=
    Nat.lt_of_lt_of_eq (List.getElem?_eq_some_iff.mp hv).1 h.length_adjacency.symm
  rw [h.mem_verticesAt, h.strongPartition.componentOf_eq_iff hps inside, h.position_eq hv]
  exact and_iff_right (List.mem_of_getElem? hv)

private theorem labelsBetween_eq (h : g.WellFormed) {c d : List V} (hc : c ∈ g.components)
    (hd : d ∈ g.components) :
    g.labelsBetween c d = between g.componentPositions g.positionedArcs
      (g.contract.position c) (g.contract.position d) := by
  refine h.map_filter_arcs _ _ fun {p arc v w} _ hv hw => ?_
  rw [decide_eq_decide, h.mem_component_iff hc hv, h.mem_component_iff hd hw]

theorem label?_contract (h : g.WellFormed) {c d : List V} (hc : c ∈ g.components)
    (hd : d ∈ g.components) :
    g.contract.label? c d =
      if c = d ∨ g.labelsBetween c d = [] then none else some (g.labelsBetween c d) := by
  have position : g.contract.position c = g.contract.position d ↔ c = d :=
    ⟨position_injective (h.vertices_contract.symm ▸ hc), fun same => by rw [same]⟩
  rw [label?, h.collected.labelAt?_eq, h.labelsBetween_eq hc hd]
  simp only [position]

theorem hasArc_contract (h : g.WellFormed) {c d : List V} (hc : c ∈ g.components)
    (hd : d ∈ g.components) :
    g.contract.hasArc c d = true ↔ c ≠ d ∧ ∃ v ∈ c, ∃ w ∈ d, g.hasArc v w = true := by
  rw [hasArc, h.label?_contract hc hd, ← h.labelsBetween_ne_nil_iff, ← not_or]
  split
  · rename_i nothing
    simp [nothing]
  · rename_i something
    simp [something]

theorem labels_contract_perm (h : g.WellFormed) :
    (g.contract.arcs.flatMap (·.2.2)).Perm
      ((g.arcs.filter fun arc => ¬ ∃ c ∈ g.components, arc.1 ∈ c ∧ arc.2.1 ∈ c).map
        (·.2.2)) := by
  have labels : g.contract.arcs.flatMap (·.2.2) =
      g.contract.rows.flatten.flatMap (·.label) := by
    rw [List.flatMap_def, List.flatMap_def, h.contract.map_arcs]
  have picked : (g.arcs.filter fun arc => ¬ ∃ c ∈ g.components, arc.1 ∈ c ∧ arc.2.1 ∈ c).map
      (·.2.2) = crossing g.componentPositions g.positionedArcs := by
    refine h.map_filter_arcs _ _ fun {p arc v w} member hv hw => ?_
    have leads := leads_iff_exists_arc.mpr ⟨arc, member, rfl⟩
    rw [decide_eq_decide, not_congr]
    rw [h.exists_component_iff_mutual (List.mem_of_getElem? hv),
      h.mutual_iff_walks (List.mem_of_getElem? hv) (List.mem_of_getElem? hw), h.position_eq hv,
      h.position_eq hw]
    exact (h.strongPartition.componentOf_eq_iff_walks leads.origin_lt (h.bounded _ _ leads)).symm
  rw [labels, picked]
  exact h.collected.labels_perm

end WellFormed

end Contract

end ObjectRelational.Digraph
