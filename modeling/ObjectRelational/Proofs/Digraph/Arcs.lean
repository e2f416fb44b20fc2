import Mathlib.Data.List.Basic
import ObjectRelational.Proofs.Digraph.WellFormed

set_option autoImplicit false
set_option relaxedAutoImplicit false

/-!
The listing of the arcs of a graph. In a well-formed graph it holds one entry for each pair of
vertices with an arc, and loses no label.
-/

namespace ObjectRelational.Digraph

variable {V E : Type}

theorem mem_positionedArcs {g : Digraph V E} {origin : Nat} {arc : Arc E} :
    (origin, arc) ∈ g.positionedArcs ↔ arc ∈ g.row origin := by
  simp only [positionedArcs, List.mem_flatMap, List.mem_map, Prod.mk.injEq, Prod.exists,
    List.mem_zipIdx_iff_getElem?, row]
  constructor
  · rintro ⟨arcs, p, found, arc, member, rfl, rfl⟩
    rwa [found]
  · intro member
    cases found : g.rows[origin]? with
    | none => simp [found] at member
    | some arcs =>
      rw [found] at member
      exact ⟨arcs, origin, found, arc, member, rfl, rfl⟩

private theorem map_positionedArcs (g : Digraph V E) :
    g.positionedArcs.map (·.2) = g.rows.flatten := by
  have lists : ∀ (rows : List (List (Arc E))) (n : Nat),
      ((rows.zipIdx n).flatMap fun entry => entry.1.map fun arc => (entry.2, arc)).map (·.2) =
        rows.flatten := by
    intro rows
    induction rows with
    | nil => intro n; rfl
    | cons row rows ih =>
      intro n
      rw [List.zipIdx_cons, List.flatMap_cons, List.map_append, ih, List.flatten_cons,
        List.map_map]
      exact congrArg (· ++ rows.flatten) (List.map_id _)
  exact lists g.rows 0

theorem length_flatten_adjacency (g : Digraph V E) : g.adjacency.flatten.length = g.size := by
  simp [size, adjacency, List.length_flatten, List.map_map, Function.comp_def]

theorem size_addVertex [DecidableEq V] (g : Digraph V E) (v : V) :
    (g.addVertex v).size = g.size := by
  rw [← length_flatten_adjacency, ← length_flatten_adjacency, adjacency_addVertex]
  split
  · rfl
  · rw [List.flatten_append, List.flatten_singleton, List.append_nil]

theorem size_adjustArcAt (g : Digraph V E) (origin destination : Nat) (f : E → E) :
    (g.adjustArcAt origin destination f).size = g.size := by
  rw [← length_flatten_adjacency, ← length_flatten_adjacency, adjacency_adjustArcAt]

theorem size_putArcAt {g : Digraph V E} {origin : Nat} (inside : origin < g.rows.length)
    (destination : Nat) (label : E) :
    (g.putArcAt origin destination label).size =
      if (g.labelAt? origin destination).isSome then g.size else g.size + 1 := by
  rw [← length_flatten_adjacency, ← length_flatten_adjacency, adjacency_putArcAt]
  split
  · rfl
  · exact length_flatten_addLead (by simpa using inside)

/-- The labels between the members of one list and those of another, as the arcs are listed. -/
def labelsBetween [DecidableEq V] (g : Digraph V E) (origins destinations : List V) : List E :=
  (g.arcs.filter fun arc => arc.1 ∈ origins ∧ arc.2.1 ∈ destinations).map (·.2.2)

namespace WellFormed

variable {g : Digraph V E}

theorem exists_ends (h : g.WellFormed) {origin : Nat} {arc : Arc E} (member : arc ∈ g.row origin) :
    ∃ v w, g.vertices[origin]? = some v ∧ g.vertices[arc.destination]? = some w := by
  have leads := leads_iff_exists_arc.mpr ⟨arc, member, rfl⟩
  have origin_lt : origin < g.vertices.length :=
    Nat.lt_of_lt_of_eq leads.origin_lt h.length_adjacency
  have destination_lt : arc.destination < g.vertices.length :=
    Nat.lt_of_lt_of_eq (h.bounded _ _ leads) h.length_adjacency
  exact ⟨_, _, List.getElem?_eq_getElem origin_lt, List.getElem?_eq_getElem destination_lt⟩

theorem labelAt?_of_mem (h : g.WellFormed) {origin : Nat} {arc : Arc E}
    (member : arc ∈ g.row origin) : g.labelAt? origin arc.destination = some arc.label := by
  have distinct : ((g.row origin).map (·.destination)).Nodup :=
    adjacency_getD g origin ▸ h.row_nodup origin
  have leads := leads_iff_exists_arc.mpr ⟨arc, member, rfl⟩
  obtain ⟨label, labelled⟩ := Option.isSome_iff_exists.mp (isSome_labelAt?_iff.mpr leads)
  obtain ⟨other, found, rfl⟩ := Option.map_eq_some_iff.mp labelled
  have ends : other.destination = arc.destination := by simpa using List.find?_some found
  have same := List.inj_on_of_nodup_map distinct (List.mem_of_find?_eq_some found) member ends
  rw [labelled, same]

theorem map_filter_arcs (h : g.WellFormed) (chosen : V × V × E → Bool)
    (chosenAt : Nat × Arc E → Bool)
    (agree : ∀ {origin arc v w}, arc ∈ g.row origin → g.vertices[origin]? = some v →
      g.vertices[arc.destination]? = some w →
      chosen (v, w, arc.label) = chosenAt (origin, arc)) :
    (g.arcs.filter chosen).map (·.2.2) = (g.positionedArcs.filter chosenAt).map (·.2.label) := by
  have all : ∀ entry ∈ g.positionedArcs, entry.2 ∈ g.row entry.1 := fun entry member =>
    mem_positionedArcs.mp member
  unfold arcs
  generalize g.positionedArcs = entries at all
  induction entries with
  | nil => rfl
  | cons entry entries ih =>
    obtain ⟨origin, arc⟩ := entry
    have member := all _ List.mem_cons_self
    obtain ⟨v, w, hv, hw⟩ := h.exists_ends member
    have rest := ih fun entry later => all entry (List.mem_cons_of_mem _ later)
    rw [List.filterMap_cons]
    simp only [hv, hw]
    rw [List.filter_cons, List.filter_cons, agree member hv hw]
    split
    · rw [List.map_cons, List.map_cons, rest]
    · exact rest

theorem countP_arcs (h : g.WellFormed) (chosen : V × V × E → Bool)
    (chosenAt : Nat × Arc E → Bool)
    (agree : ∀ {origin arc v w}, arc ∈ g.row origin → g.vertices[origin]? = some v →
      g.vertices[arc.destination]? = some w →
      chosen (v, w, arc.label) = chosenAt (origin, arc)) :
    g.arcs.countP chosen = g.positionedArcs.countP chosenAt := by
  have labels := congrArg List.length (h.map_filter_arcs chosen chosenAt agree)
  rw [List.length_map, List.length_map] at labels
  rw [List.countP_eq_length_filter, List.countP_eq_length_filter, labels]

theorem map_arcs (h : g.WellFormed) : g.arcs.map (·.2.2) = g.rows.flatten.map (·.label) := by
  have same := h.map_filter_arcs (fun _ => true) (fun _ => true) fun _ _ _ => rfl
  rw [List.filter_true, List.filter_true] at same
  rw [same, ← map_positionedArcs, List.map_map]
  rfl

private theorem mem_arcs [DecidableEq V] (h : g.WellFormed) {v w : V} {label : E} :
    (v, w, label) ∈ g.arcs ↔ v ∈ g.vertices ∧ w ∈ g.vertices ∧
      ⟨g.position w, label⟩ ∈ g.row (g.position v) := by
  simp only [arcs, List.mem_filterMap, Prod.exists, mem_positionedArcs]
  constructor
  · rintro ⟨origin, arc, member, found⟩
    obtain ⟨v', w', hv, hw⟩ := h.exists_ends member
    simp only [hv, hw, Option.some.injEq, Prod.mk.injEq] at found
    obtain ⟨rfl, rfl, rfl⟩ := found
    rw [h.position_eq hv, h.position_eq hw]
    exact ⟨List.mem_of_getElem? hv, List.mem_of_getElem? hw, member⟩
  · rintro ⟨hv, hw, member⟩
    exact ⟨_, _, member, by simp only [getElem?_position hv, getElem?_position hw]⟩

theorem indegree_eq_countP [DecidableEq V] (h : g.WellFormed) {v : V} :
    g.indegree v = g.arcs.countP (·.2.1 = v) := by
  have ends : g.arcs.countP (·.2.1 = v) = g.adjacency.flatten.count (g.position v) := by
    have all : g.adjacency.flatten = g.positionedArcs.map (·.2.destination) := by
      rw [adjacency, ← List.map_flatten, ← map_positionedArcs, List.map_map]
      rfl
    rw [all, List.count, List.countP_map]
    refine h.countP_arcs _ _ fun {origin arc u w} _ _ hw => ?_
    rw [Function.comp_apply, beq_eq_decide, decide_eq_decide, ← h.position_eq hw]
    exact ⟨congrArg g.position, position_injective (List.mem_of_getElem? hw)⟩
  rw [ends, indegree, h.indegrees_eq, List.getElem?_map]
  by_cases hv : v ∈ g.vertices
  · rw [List.getElem?_range (position_lt_order_iff.mpr hv)]
    rfl
  · have outside := mt position_lt_order_iff.mp hv
    have none_ends : g.adjacency.flatten.count (g.position v) = 0 := by
      rw [List.count_eq_zero, mem_flatten_iff_exists_leads]
      rintro ⟨p, leads⟩
      exact outside (h.length_adjacency ▸ h.bounded p _ leads)
    rw [none_ends, List.getElem?_eq_none (by simpa using Nat.le_of_not_lt outside)]
    rfl

theorem hasArc_iff_mem_arcs [DecidableEq V] (h : g.WellFormed) {v w : V} :
    g.hasArc v w = true ↔ ∃ label, (v, w, label) ∈ g.arcs := by
  constructor
  · intro arc
    obtain ⟨hv, hw⟩ := h.mem_of_hasArc arc
    obtain ⟨⟨destination, label⟩, member, rfl⟩ :=
      leads_iff_exists_arc.mp (hasArc_iff_leads.mp arc)
    exact ⟨label, h.mem_arcs.mpr ⟨hv, hw, member⟩⟩
  · rintro ⟨label, member⟩
    exact hasArc_iff_leads.mpr (leads_iff_exists_arc.mpr ⟨_, (h.mem_arcs.mp member).2.2, rfl⟩)

theorem labelsBetween_ne_nil_iff [DecidableEq V] (h : g.WellFormed)
    {origins destinations : List V} :
    g.labelsBetween origins destinations ≠ [] ↔
      ∃ v ∈ origins, ∃ w ∈ destinations, g.hasArc v w = true := by
  rw [labelsBetween, ne_eq, List.map_eq_nil_iff, List.filter_eq_nil_iff]
  simp only [Prod.forall, decide_eq_true_eq, not_forall, not_not, exists_prop]
  constructor
  · rintro ⟨v, w, label, member, hv, hw⟩
    exact ⟨v, hv, w, hw, h.hasArc_iff_mem_arcs.mpr ⟨label, member⟩⟩
  · rintro ⟨v, hv, w, hw, arc⟩
    obtain ⟨label, member⟩ := h.hasArc_iff_mem_arcs.mp arc
    exact ⟨v, w, label, member, hv, hw⟩

theorem size_eq {V' E' : Type} {g' : Digraph V' E'} (h : g.WellFormed) (h' : g'.WellFormed)
    (order : g.order = g'.order) (leads : ∀ p q, Leads g.adjacency p q ↔ Leads g'.adjacency p q) :
    g.size = g'.size := by
  have counted : ∀ {V E : Type} (g : Digraph V E),
      g.size = (g.adjacency.map List.length).sum := by
    intro V E g
    simp [size, adjacency, List.length_flatten, List.map_map, Function.comp_def]
  rw [counted, counted]
  congr 1
  apply List.ext_getElem?
  intro p
  have rows : (g.adjacency[p]?.getD []).length = (g'.adjacency[p]?.getD []).length :=
    ((List.perm_ext_iff_of_nodup (h.row_nodup p) (h'.row_nodup p)).mpr (leads p)).length_eq
  rw [List.getElem?_map, List.getElem?_map]
  by_cases inside : p < g.order
  · rw [List.getElem?_eq_getElem (h.length_adjacency.symm ▸ inside),
      List.getElem?_eq_getElem (h'.length_adjacency.symm ▸ order ▸ inside)] at rows ⊢
    exact congrArg some rows
  · have outside := Nat.le_of_not_lt inside
    rw [List.getElem?_eq_none (h.length_adjacency.symm ▸ outside),
      List.getElem?_eq_none (h'.length_adjacency.symm ▸ order ▸ outside)]

end WellFormed

end ObjectRelational.Digraph
