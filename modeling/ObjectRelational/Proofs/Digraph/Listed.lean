import ObjectRelational.Proofs.Digraph.Agreement
import ObjectRelational.Proofs.Digraph.ArcList

set_option autoImplicit false
set_option relaxedAutoImplicit false

/-!
Graphs and lists of arcs. A graph has the arcs of a list when it keeps, for each vertex, those that
leave it. Edits keep this so, and then both answer the same.
-/

namespace ObjectRelational

namespace Digraph

variable {V E : Type} [DecidableEq V]

def edit (g : Digraph V E) : Edit V E → Digraph V E
  | .addVertex v => g.addVertex v
  | .putArc v w label => g.putArc v w label
  | .adjustArc v w change => g.adjustArc v w change

def editAll (g : Digraph V E) (edits : List (Edit V E)) : Digraph V E := edits.foldl edit g

def answers (g : Digraph V E) : GraphAnswers V E where
  vertices := g.vertices
  order := g.order
  isEmpty := g.isEmpty
  hasVertex := g.hasVertex
  position? := g.position?
  arcs := g.arcs
  size := g.size
  label? := g.label?
  hasArc := g.hasArc
  successors := g.successors
  indegree := g.indegree
  outdegree := g.outdegree

/-- An arc as a graph with the given vertices keeps it, with its origin. -/
def arcAmong (vertices : List V) (a : V × V × E) : Arc E := ⟨vertices.idxOf a.2.1, a.2.2⟩

/-- The graph has the vertices of the list and, for each of them, the arcs that leave it. -/
structure Lists (g : Digraph V E) (r : ArcList V E) : Prop where
  formed : g.WellFormed
  vertices : g.vertices = r.vertices
  rows : g.rows = g.vertices.map fun v => (r.leaving v).map (arcAmong g.vertices)
  ends : ∀ a ∈ r.arcs, a.1 ∈ g.vertices ∧ a.2.1 ∈ g.vertices

variable {g : Digraph V E} {r : ArcList V E}

theorem WellFormed.position?_eq_some_iff (h : g.WellFormed) {v : V} {p : Nat} :
    g.position? v = some p ↔ g.vertices[p]? = some v := by
  rw [position?, List.idxOf?_eq_some_iff, List.getElem?_eq_some_iff]
  constructor
  · rintro ⟨inside, there, -⟩
    exact ⟨inside, there⟩
  · rintro ⟨inside, there⟩
    refine ⟨inside, there, fun q lt again => ?_⟩
    have same := (h.vertices_nodup.getElem_inj_iff).mp (again.trans there.symm)
    omega

theorem position?_addVertex (g : Digraph V E) {v : V} (new : v ∉ g.vertices) (u : V) :
    (g.addVertex v).position? u = if v = u then some g.order else g.position? u := by
  have listed : (g.addVertex v).position? u = (g.vertices ++ [v]).findIdx? (· == u) := by
    rw [position?, vertices_addVertex, if_neg new]
    rfl
  rw [listed, List.findIdx?_append]
  change (g.position? u).or _ = _
  split
  · rename_i same
    subst same
    have nothing : g.position? v = none := List.idxOf?_eq_none_iff.mpr new
    simp [nothing, order]
  · rename_i other
    simp [other]

theorem position_eq_of_position? {v : V} {p : Nat} (there : g.position? v = some p) :
    g.position v = p := by
  unfold position? at there
  rw [position, List.idxOf_eq_getD_idxOf?, there, Option.getD_some]

theorem position?_addVertex_of_some {v : V} {p : Nat} (there : g.position? v = some p) (u : V) :
    (g.addVertex u).position? v = some p := by
  by_cases known : u ∈ g.vertices
  · rwa [addVertex, if_pos known]
  · have other : u ≠ v := by
      rintro rfl
      exact known (List.isSome_idxOf?.mp (Option.isSome_of_eq_some there))
    rw [g.position?_addVertex known, if_neg other, there]

theorem position?_bind_getElem? {A : Type} {entries : List A} (length : entries.length = g.order)
    (v : V) : (g.position? v).bind (entries[·]?) = entries[g.position v]? := by
  cases there : g.position? v with
  | some p => rw [position_eq_of_position? there, Option.bind_some]
  | none =>
    have absent : v ∉ g.vertices := List.idxOf?_eq_none_iff.mp there
    have outside := Nat.le_of_not_lt (mt position_lt_order_iff.mp absent)
    rw [List.getElem?_eq_none (length ▸ outside), Option.bind_none]

private theorem WellFormed.position_eq_iff (h : g.WellFormed) {v u : V} {p : Nat}
    (hp : g.vertices[p]? = some u) : g.position v = p ↔ v = u := by
  have place := h.position_eq hp
  rw [← place, eq_comm]
  exact ⟨fun same => (position_injective (List.mem_of_getElem? hp) same).symm, fun same => by
    rw [same]⟩

theorem WellFormed.putArc_of_hasArc (h : g.WellFormed) {v w : V} (arc : g.hasArc v w = true)
    (label : E) : g.putArc v w label = g.adjustArc v w fun _ => label := by
  obtain ⟨hv, hw⟩ := h.mem_of_hasArc arc
  rw [putArc_eq hv hw]
  exact if_pos arc

namespace Lists

theorem empty : ({} : Digraph V E).Lists {} := ⟨.empty, rfl, rfl, by simp⟩

variable (h : g.Lists r)

include h

private theorem position_eq_iff_of_mem {a : V × V × E} (member : a ∈ r.arcs) {w : V} :
    g.position a.2.1 = g.position w ↔ a.2.1 = w :=
  ⟨position_injective (h.ends a member).2, fun same => by rw [same]⟩

private theorem leaving_eq_nil {v : V} (absent : v ∉ g.vertices) : r.leaving v = [] := by
  refine List.filter_eq_nil_iff.mpr fun a member => ?_
  have other : a.1 ≠ v := fun same => absent (same ▸ (h.ends a member).1)
  simpa using other

private theorem row_position (v : V) :
    g.row (g.position v) = (r.leaving v).map (arcAmong g.vertices) := by
  by_cases hv : v ∈ g.vertices
  · simp [row, h.rows, getElem?_position hv]
  · have outside : g.vertices[g.position v]? = none :=
      List.getElem?_eq_none (Nat.le_of_not_lt (mt position_lt_order_iff.mp hv))
    simp [row, h.rows, outside, h.leaving_eq_nil hv]

private theorem modify_rows (v : V) (change : List (Arc E) → List (Arc E)) :
    g.rows.modify (g.position v) change = g.vertices.map fun u =>
      if v = u then change ((r.leaving u).map (arcAmong g.vertices))
      else (r.leaving u).map (arcAmong g.vertices) := by
  rw [h.rows]
  apply List.ext_getElem?
  intro p
  rw [List.getElem?_modify, List.getElem?_map, List.getElem?_map]
  cases there : g.vertices[p]? with
  | none => rfl
  | some u =>
    simp only [Option.map_some, Option.map_eq_map, h.formed.position_eq_iff there]

theorem label?_eq (v w : V) : g.label? v w = r.label? v w := by
  have same : (r.leaving v).find? (fun a => (arcAmong g.vertices a).destination == g.position w) =
      r.arcs.find? fun a => a.1 = v ∧ a.2.1 = w := by
    rw [ArcList.leaving, List.find?_filter, ← List.head?_filter, ← List.head?_filter]
    refine congrArg List.head? (List.filter_congr fun a member => ?_)
    have ends := h.position_eq_iff_of_mem member (w := w)
    unfold position at ends
    simp [arcAmong, position, ends]
  rw [label?, labelAt?, h.row_position, List.find?_map, ArcList.label?, ← same, Option.map_map]
  rfl

theorem addVertex (v : V) : (g.addVertex v).Lists (r.mention v) := by
  by_cases present : v ∈ g.vertices
  · have graph : g.addVertex v = g := if_pos present
    have list : r.mention v = r := if_pos (h.vertices ▸ present)
    rw [graph, list]
    exact h
  have graph : g.addVertex v = ⟨g.vertices ++ [v], g.rows ++ [[]], g.indegrees ++ [0]⟩ :=
    if_neg present
  have list : r.mention v = { r with vertices := r.vertices ++ [v] } :=
    if_neg (h.vertices ▸ present)
  have formed := h.formed.addVertex v
  -- the ends of the arcs are old vertices, and these keep their positions
  have kept : ∀ a ∈ r.arcs, arcAmong (g.addVertex v).vertices a = arcAmong g.vertices a := by
    intro a member
    rw [graph]
    simp [arcAmong, List.idxOf_append_of_mem (h.ends a member).2]
  have leaving : ∀ u, (r.mention v).leaving u = r.leaving u := by
    intro u
    rw [list]
    rfl
  have rows : ∀ u, ((r.mention v).leaving u).map (arcAmong (g.addVertex v).vertices) =
      (r.leaving u).map (arcAmong g.vertices) := by
    intro u
    rw [leaving]
    exact List.map_congr_left fun a member => kept a (List.mem_filter.mp member).1
  refine ⟨formed, ?_, ?_, ?_⟩
  · rw [graph, list, h.vertices]
  · simp only [rows]
    rw [graph]
    simp [h.rows, h.leaving_eq_nil present]
  · intro a member
    rw [list] at member
    rw [graph]
    exact ⟨List.mem_append_left _ (h.ends a member).1, List.mem_append_left _ (h.ends a member).2⟩

theorem label?_addVertex (u v w : V) : (g.addVertex u).label? v w = g.label? v w := by
  rw [(h.addVertex u).label?_eq, h.label?_eq, ArcList.label?_mention]

private theorem adjustArc (v w : V) (change : E → E) :
    (g.adjustArc v w change).Lists (r.adjust v w change) := by
  refine ⟨h.formed.adjustArc v w change, h.vertices, ?_, ?_⟩
  · refine (h.modify_rows v _).trans (List.map_congr_left fun u _ => ?_)
    rw [ArcList.leaving_adjust]
    split
    · rename_i same
      rw [List.map_map, List.map_map]
      refine List.map_congr_left fun a member => ?_
      obtain ⟨member, origin⟩ := List.mem_filter.mp member
      have origin : a.1 = v := by simpa [same] using origin
      have ends := h.position_eq_iff_of_mem member (w := w)
      unfold position at ends
      simp only [position, Function.comp_apply, arcAmong, ends, ArcList.relabel, origin, true_and]
      split <;> rfl
    · rename_i other
      rw [List.map_map]
      refine List.map_congr_left fun a member => ?_
      have origin : a.1 = u := by simpa using (List.mem_filter.mp member).2
      have apart : ¬ (a.1 = v ∧ a.2.1 = w) := fun both => other (both.1.symm.trans origin)
      simp only [Function.comp_apply, ArcList.relabel, if_neg apart]
      rfl
  · intro a member
    obtain ⟨b, earlier, rfl⟩ := List.mem_map.mp member
    rw [ArcList.relabel_fst, ArcList.relabel_snd_fst]
    exact h.ends b earlier

private theorem putArcAt {v w : V} (hv : v ∈ g.vertices) (hw : w ∈ g.vertices) (label : E) :
    (g.putArcAt (g.position v) (g.position w) label).Lists (r.put v w label) := by
  have known : (g.labelAt? (g.position v) (g.position w)).isSome = (r.label? v w).isSome :=
    congrArg Option.isSome (h.label?_eq v w)
  by_cases present : (r.label? v w).isSome
  · have graph : g.putArcAt (g.position v) (g.position w) label =
        g.adjustArc v w fun _ => label := if_pos (known.trans present)
    have list : r.put v w label = r.adjust v w fun _ => label := if_pos present
    rw [graph, list]
    exact h.adjustArc v w _
  have formed := h.formed.putArcAt (position_lt_order_iff.mpr hv) (position_lt_order_iff.mpr hw)
    label
  have graph : g.putArcAt (g.position v) (g.position w) label =
      { g with
        rows := g.rows.modify (g.position v) (· ++ [⟨g.position w, label⟩])
        indegrees := g.indegrees.modify (g.position w) (· + 1) } :=
    if_neg (known ▸ present)
  have list : r.put v w label = { r with arcs := r.arcs ++ [(v, w, label)] } := if_neg present
  rw [graph] at formed ⊢
  rw [list]
  refine ⟨formed, h.vertices, ?_, ?_⟩
  · refine (h.modify_rows v _).trans (List.map_congr_left fun u _ => ?_)
    simp only [ArcList.leaving, List.filter_append, List.map_append]
    by_cases same : v = u
    · simp [same, arcAmong, position]
    · simp [same]
  · intro a member
    rcases List.mem_append.mp member with member | member
    · exact h.ends a member
    · obtain rfl := List.mem_singleton.mp member
      exact ⟨hv, hw⟩

private theorem putArc (v w : V) (label : E) :
    (g.putArc v w label).Lists (((r.mention v).mention w).put v w label) := by
  refine ((h.addVertex v).addVertex w).putArcAt ?_ ?_ label
  · exact mem_vertices_addVertex.mpr (.inl (mem_vertices_addVertex.mpr (.inr rfl)))
  · exact mem_vertices_addVertex.mpr (.inr rfl)

theorem edit (e : Edit V E) : (g.edit e).Lists (r.edit e) := by
  cases e with
  | addVertex v => exact h.addVertex v
  | putArc v w label => exact h.putArc v w label
  | adjustArc v w change => exact h.adjustArc v w change

theorem editAll (edits : List (Edit V E)) : (g.editAll edits).Lists (r.editAll edits) := by
  induction edits generalizing g r with
  | nil => exact h
  | cons e edits ih => exact ih (h.edit e)

private theorem filterMap_leaving {p : Nat} {v : V} (there : g.vertices[p]? = some v) :
    ((r.leaving v).map (arcAmong g.vertices)).filterMap (fun arc =>
      match g.vertices[p]?, g.vertices[arc.destination]? with
      | some v, some w => some (v, w, arc.label)
      | _, _ => none) = r.leaving v := by
  rw [List.filterMap_map]
  refine (List.filterMap_congr fun a member => ?_).trans List.filterMap_some
  obtain ⟨member, origin⟩ := List.mem_filter.mp member
  have origin : a.1 = v := by simpa using origin
  have ends := getElem?_position (h.ends a member).2
  unfold position at ends
  simp only [Function.comp_apply, arcAmong, there, ends, ← origin]

private theorem arcs_eq : g.arcs = r.answers.arcs := by
  have zipped : g.rows.zipIdx = g.vertices.zipIdx.map
      (Prod.map (fun v => (r.leaving v).map (arcAmong g.vertices)) id) := by
    rw [h.rows, List.zipIdx_map]
  have listed : r.answers.arcs = (g.vertices.zipIdx.map Prod.fst).flatMap r.leaving := by
    rw [List.zipIdx_map_fst, h.vertices]
    rfl
  rw [arcs, positionedArcs, List.filterMap_flatMap, zipped, listed, List.flatMap_map,
    List.flatMap_map]
  refine List.flatMap_congr fun entry member => ?_
  obtain ⟨v, p⟩ := entry
  have there : g.vertices[p]? = some v := List.mem_zipIdx_iff_getElem?.mp member
  dsimp only [Prod.map, id]
  rw [List.filterMap_map]
  exact h.filterMap_leaving there

theorem arcs_perm : g.arcs.Perm r.arcs := by
  rw [h.arcs_eq]
  change (r.vertices.flatMap r.leaving).Perm r.arcs
  rw [← h.vertices]
  exact flatMap_filter_perm (·.1) h.formed.vertices_nodup fun a member => (h.ends a member).1

private theorem size_eq : g.size = r.arcs.length := by
  have labels := congrArg List.length h.formed.map_arcs
  rw [List.length_map, List.length_map] at labels
  exact labels.symm.trans h.arcs_perm.length_eq

theorem successors_eq (v : V) : g.successors v = r.answers.successors v := by
  rw [successors, h.row_position, List.filterMap_map]
  change _ = (r.leaving v).map _
  rw [← List.filterMap_eq_map]
  refine List.filterMap_congr fun a member => ?_
  exact getElem?_position (h.ends a (List.mem_filter.mp member).1).2

private theorem outdegree_eq (v : V) : g.outdegree v = r.answers.outdegree v := by
  rw [outdegree, h.row_position, List.length_map]
  exact List.countP_eq_length_filter.symm

private theorem indegree_eq (v : V) : g.indegree v = r.answers.indegree v :=
  h.formed.indegree_eq_countP.trans (h.arcs_perm.countP_eq _)

theorem arcs_adjustArc_eq (v w : V) (change : E → E) :
    (g.adjustArc v w change).arcs = g.arcs.map (ArcList.relabel v w change) := by
  rw [(h.adjustArc v w change).arcs_eq, ArcList.arcs_answers_adjust, h.arcs_eq]

theorem answers_eq : g.answers = r.answers := by
  have labels : g.label? = r.label? := funext₂ h.label?_eq
  unfold answers order isEmpty hasVertex position? hasArc
  simp only [h.arcs_eq, h.size_eq, funext h.successors_eq, funext h.indegree_eq,
    funext h.outdegree_eq, labels, h.vertices]
  rfl

end Lists

end Digraph

end ObjectRelational
