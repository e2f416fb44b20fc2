import Mathlib
import ObjectRelational.Proofs.Digraph.Listed

set_option autoImplicit false
set_option relaxedAutoImplicit false

/-!
Graphs with two tables beside the lists: the position of each vertex and the label of each pair of
positions. The rows then hold destinations only, and vertices and labels are found without a search.
The edits keep the lists and the tables together, and the graph answers what a plain list of its
arcs answers.
-/

namespace ObjectRelational

/-- The vertices with their positions, the labels by positions, and for each vertex the positions
that its arcs lead to and the number of those that end at it. -/
structure IndexedDigraph (V E : Type) [DecidableEq V] [Hashable V] where
  vertices : List V := []
  index : Std.HashMap V Nat := {}
  labels : Std.HashMap (Nat × Nat) E := {}
  successors : List (List Nat) := []
  indegrees : List Nat := []

namespace IndexedDigraph

variable {V E : Type} [DecidableEq V] [Hashable V]

def addVertex (x : IndexedDigraph V E) (v : V) : Nat × IndexedDigraph V E :=
  match x.index[v]? with
  | some p => (p, x)
  | none =>
    (x.vertices.length,
      { x with
        vertices := x.vertices ++ [v]
        index := x.index.insert v x.vertices.length
        successors := x.successors ++ [[]]
        indegrees := x.indegrees ++ [0] })

/-- Puts a label between two positions and tells the one that it replaces. Only where there was none
the arc is new. -/
def putArcAt (x : IndexedDigraph V E) (origin destination : Nat) (label : E) :
    Option E × IndexedDigraph V E :=
  let previous := x.labels[(origin, destination)]?
  let labels := x.labels.insert (origin, destination) label
  if previous.isSome then (previous, { x with labels })
  else
    (previous,
      { x with
        labels
        successors := x.successors.modify origin (· ++ [destination])
        indegrees := x.indegrees.modify destination (· + 1) })

def putArc (x : IndexedDigraph V E) (origin destination : V) (label : E) :
    Option E × IndexedDigraph V E :=
  let (p, x) := x.addVertex origin
  let (q, x) := x.addVertex destination
  x.putArcAt p q label

def positions? (x : IndexedDigraph V E) (origin destination : V) : Option (Nat × Nat) := do
  let p ← x.index[origin]?
  let q ← x.index[destination]?
  return (p, q)

def label? (x : IndexedDigraph V E) (origin destination : V) : Option E :=
  (x.positions? origin destination).bind (x.labels[·]?)

def adjustArc (x : IndexedDigraph V E) (origin destination : V) (change : E → E) :
    IndexedDigraph V E :=
  match x.positions? origin destination with
  | some key => { x with labels := x.labels.modify key change }
  | none => x

def edit (x : IndexedDigraph V E) : Edit V E → IndexedDigraph V E
  | .addVertex v => (x.addVertex v).2
  | .putArc v w label => (x.putArc v w label).2
  | .adjustArc v w change => x.adjustArc v w change

def editAll (x : IndexedDigraph V E) (edits : List (Edit V E)) : IndexedDigraph V E :=
  edits.foldl edit x

def outgoing (x : IndexedDigraph V E) (v : V) : List Nat :=
  (x.index[v]?.bind (x.successors[·]?)).getD []

def arcs (x : IndexedDigraph V E) : List (V × V × E) :=
  x.successors.zipIdx.flatMap fun (row, origin) => row.filterMap fun destination =>
    match x.vertices[origin]?, x.vertices[destination]?, x.labels[(origin, destination)]? with
    | some v, some w, some label => some (v, w, label)
    | _, _, _ => none

def answers (x : IndexedDigraph V E) : GraphAnswers V E where
  vertices := x.vertices
  order := x.vertices.length
  isEmpty := x.vertices.isEmpty
  hasVertex v := x.index.contains v
  position? v := x.index[v]?
  arcs := x.arcs
  size := x.labels.size
  label? := x.label?
  hasArc v w := (x.label? v w).isSome
  successors v := (x.outgoing v).filterMap (x.vertices[·]?)
  indegree v := (x.index[v]?.bind (x.indegrees[·]?)).getD 0
  outdegree v := (x.outgoing v).length

/-- The fields tell one graph, so what is looked up at a position is there. -/
structure Consistent (x : IndexedDigraph V E) : Prop where
  index_iff : ∀ (v : V) (p : Nat), x.index[v]? = some p ↔ x.vertices[p]? = some v
  length_successors : x.successors.length = x.vertices.length
  indegrees_eq : x.indegrees =
    (List.range x.vertices.length).map fun p => x.successors.flatten.count p
  labels_iff : ∀ p q, (p, q) ∈ x.labels ↔ Digraph.Leads x.successors p q
  size_eq : x.labels.size = x.successors.flatten.length
  bounded : Digraph.Bounded x.successors
  simple : ∀ row ∈ x.successors, row.Nodup

structure Indexes (x : IndexedDigraph V E) (g : Digraph V E) : Prop where
  vertices : x.vertices = g.vertices
  index : ∀ v, x.index[v]? = g.position? v
  labels : ∀ p q, x.labels[(p, q)]? = g.labelAt? p q
  successors : x.successors = g.adjacency
  indegrees : x.indegrees = g.indegrees
  size : x.labels.size = g.size

private theorem indexes_empty : ({} : IndexedDigraph V E).Indexes {} :=
  ⟨rfl, fun _ => Std.HashMap.getElem?_empty, fun _ _ => Std.HashMap.getElem?_empty, rfl, rfl, rfl⟩

namespace Indexes

variable {x : IndexedDigraph V E} {g : Digraph V E}

private theorem mem_labels_iff (h : x.Indexes g) {p q : Nat} :
    (p, q) ∈ x.labels ↔ (g.labelAt? p q).isSome = true := by
  rw [Std.HashMap.mem_iff_contains, Std.HashMap.contains_eq_isSome_getElem?, h.labels]

private theorem consistent (h : x.Indexes g) (formed : g.WellFormed) : x.Consistent where
  index_iff v p := by rw [h.index, h.vertices, formed.position?_eq_some_iff]
  length_successors := by rw [h.successors, h.vertices, formed.length_adjacency, Digraph.order]
  indegrees_eq := by rw [h.indegrees, h.successors, h.vertices, formed.indegrees_eq, Digraph.order]
  labels_iff p q := by rw [h.mem_labels_iff, h.successors, Digraph.isSome_labelAt?_iff]
  size_eq := by rw [h.size, h.successors, Digraph.length_flatten_adjacency]
  bounded := h.successors ▸ formed.bounded
  simple := h.successors ▸ formed.simple

private theorem addVertex (h : x.Indexes g) (v : V) :
    (g.addVertex v).position? v = some (x.addVertex v).1 ∧
      (x.addVertex v).2.Indexes (g.addVertex v) := by
  unfold IndexedDigraph.addVertex
  rw [h.index]
  cases there : g.position? v with
  | some p =>
    have known : v ∈ g.vertices := by
      rw [← List.isSome_idxOf?]
      exact Option.isSome_of_eq_some there
    have same : g.addVertex v = g := if_pos known
    rw [same]
    exact ⟨there, h⟩
  | none =>
    have new : v ∉ g.vertices := List.idxOf?_eq_none_iff.mp there
    have grown : g.addVertex v = ⟨g.vertices ++ [v], g.rows ++ [[]], g.indegrees ++ [0]⟩ :=
      if_neg new
    have positions := g.position?_addVertex new
    refine ⟨?_, ?_, fun u => ?_, fun p q => ?_, ?_, ?_, ?_⟩
    · rw [positions, if_pos rfl, h.vertices]
      rfl
    · rw [h.vertices, grown]
    · dsimp only
      rw [Std.HashMap.getElem?_insert, positions, h.index, h.vertices]
      by_cases same : v = u
      · simp [same, Digraph.order]
      · simp [same]
    · rw [Digraph.labelAt?_addVertex]
      exact h.labels p q
    · rw [h.successors, Digraph.adjacency_addVertex, if_neg new]
    · rw [h.indegrees, grown]
    · rw [Digraph.size_addVertex, h.size]

private theorem putArcAt (h : x.Indexes g) {origin : Nat} (inside : origin < g.rows.length)
    (destination : Nat) (label : E) :
    (x.putArcAt origin destination label).1 = g.labelAt? origin destination ∧
      (x.putArcAt origin destination label).2.Indexes (g.putArcAt origin destination label) := by
  have labels : ∀ p q, (x.labels.insert (origin, destination) label)[(p, q)]? =
      (g.putArcAt origin destination label).labelAt? p q := by
    intro p q
    rw [Std.HashMap.getElem?_insert, Digraph.labelAt?_putArcAt inside, h.labels]
    simp only [beq_iff_eq, Prod.mk.injEq, eq_comm (a := origin), eq_comm (a := destination)]
  have size : (x.labels.insert (origin, destination) label).size =
      (g.putArcAt origin destination label).size := by
    rw [Std.HashMap.size_insert, Digraph.size_putArcAt inside, h.size]
    simp only [h.mem_labels_iff]
  have adjacency := g.adjacency_putArcAt origin destination label
  unfold IndexedDigraph.putArcAt
  simp only [h.labels]
  by_cases present : (g.labelAt? origin destination).isSome
  · rw [if_pos present] at adjacency ⊢
    have changed : g.putArcAt origin destination label =
        g.adjustArcAt origin destination fun _ => label := if_pos present
    refine ⟨rfl, ?_, fun v => ?_, labels, ?_, ?_, size⟩
    · rw [changed]
      exact h.vertices
    · rw [changed]
      exact h.index v
    · exact h.successors.trans adjacency.symm
    · rw [changed]
      exact h.indegrees
  · rw [if_neg present] at adjacency ⊢
    have changed : g.putArcAt origin destination label =
        { g with
          rows := g.rows.modify origin (· ++ [⟨destination, label⟩])
          indegrees := g.indegrees.modify destination (· + 1) } := if_neg present
    refine ⟨rfl, ?_, fun v => ?_, labels, ?_, ?_, size⟩
    · rw [changed]
      exact h.vertices
    · rw [changed]
      exact h.index v
    · rw [adjacency, Digraph.addLead, ← h.successors]
    · rw [changed, ← h.indegrees]

private theorem putArc (h : x.Indexes g) (formed : g.WellFormed) (v w : V) (label : E) :
    (x.putArc v w label).1 = ((g.addVertex v).addVertex w).label? v w ∧
      (x.putArc v w label).2.Indexes (g.putArc v w label) := by
  obtain ⟨first, h⟩ := h.addVertex v
  obtain ⟨second, h⟩ := h.addVertex w
  have origin := Digraph.position_eq_of_position? (Digraph.position?_addVertex_of_some first w)
  have destination := Digraph.position_eq_of_position? second
  have inside : ((g.addVertex v).addVertex w).position v <
      ((g.addVertex v).addVertex w).rows.length := by
    rw [((formed.addVertex v).addVertex w).length_rows, Digraph.position_lt_order_iff]
    exact Digraph.mem_vertices_addVertex.mpr (.inl (Digraph.mem_vertices_addVertex.mpr (.inr rfl)))
  unfold IndexedDigraph.putArc Digraph.putArc Digraph.label?
  dsimp only
  rw [origin] at inside ⊢
  rw [destination]
  exact h.putArcAt inside _ label

private theorem positions?_eq_some_iff (h : x.Indexes g) {v w : V} {p q : Nat} :
    x.positions? v w = some (p, q) ↔ g.position? v = some p ∧ g.position? w = some q := by
  unfold positions?
  rw [h.index, h.index]
  cases g.position? v <;> cases g.position? w <;> simp

private theorem label?_eq_none (h : x.Indexes g) (formed : g.WellFormed) {v w : V}
    (missing : x.positions? v w = none) : g.label? v w = none := by
  cases found : g.label? v w with
  | none => rfl
  | some label =>
    have arc : g.hasArc v w = true := Option.isSome_of_eq_some found
    obtain ⟨hv, hw⟩ := formed.mem_of_hasArc arc
    have there := h.positions?_eq_some_iff.mpr
      ⟨formed.position?_eq_some_iff.mpr (Digraph.getElem?_position hv),
        formed.position?_eq_some_iff.mpr (Digraph.getElem?_position hw)⟩
    rw [missing] at there
    cases there

private theorem adjustArc (h : x.Indexes g) (formed : g.WellFormed) (v w : V) (change : E → E) :
    (x.adjustArc v w change).Indexes (g.adjustArc v w change) := by
  have changed : ∀ p q, (g.adjustArc v w change).labelAt? p q =
      if p = g.position v ∧ q = g.position w then (g.labelAt? p q).map change
      else g.labelAt? p q := Digraph.labelAt?_adjustArcAt change
  have adjacency : (g.adjustArc v w change).adjacency = g.adjacency :=
    Digraph.adjacency_adjustArcAt change
  have size : (g.adjustArc v w change).size = g.size := Digraph.size_adjustArcAt g _ _ change
  unfold IndexedDigraph.adjustArc
  split
  · rename_i key there
    obtain ⟨p, q⟩ := key
    obtain ⟨origin, destination⟩ := h.positions?_eq_some_iff.mp there
    refine ⟨h.vertices, h.index, fun p' q' => ?_, ?_, h.indegrees, ?_⟩
    · dsimp only
      rw [Std.HashMap.getElem?_modify, changed, h.labels, h.labels,
        Digraph.position_eq_of_position? origin, Digraph.position_eq_of_position? destination]
      simp only [beq_iff_eq, Prod.mk.injEq, eq_comm (a := p), eq_comm (a := q)]
      refine if_ctx_congr Iff.rfl (fun both => ?_) fun _ => rfl
      rw [both.1, both.2]
    · exact h.successors.trans adjacency.symm
    · rw [Std.HashMap.size_modify, h.size, size]
  · rename_i missing
    -- a value that is no vertex has a position too, behind the others, where no label is
    have nothing := h.label?_eq_none formed missing
    refine ⟨h.vertices, h.index, fun p q => ?_, h.successors.trans adjacency.symm, h.indegrees,
      h.size.trans size.symm⟩
    rw [h.labels, changed]
    split
    · rename_i both
      have gone : g.labelAt? p q = none := by
        rw [both.1, both.2]
        exact nothing
      rw [gone]
      rfl
    · rfl

private theorem edit (h : x.Indexes g) (formed : g.WellFormed) (e : Edit V E) :
    (x.edit e).Indexes (g.edit e) := by
  cases e with
  | addVertex v => exact (h.addVertex v).2
  | putArc v w label => exact (h.putArc formed v w label).2
  | adjustArc v w change => exact h.adjustArc formed v w change

private theorem label?_eq (h : x.Indexes g) (formed : g.WellFormed) (v w : V) :
    x.label? v w = g.label? v w := by
  unfold IndexedDigraph.label?
  cases there : x.positions? v w with
  | none => rw [h.label?_eq_none formed there, Option.bind_none]
  | some key =>
    obtain ⟨p, q⟩ := key
    obtain ⟨origin, destination⟩ := h.positions?_eq_some_iff.mp there
    rw [Option.bind_some, h.labels, Digraph.label?, Digraph.position_eq_of_position? origin,
      Digraph.position_eq_of_position? destination]

private theorem outgoing_eq (h : x.Indexes g) (formed : g.WellFormed) (v : V) :
    x.outgoing v = (g.row (g.position v)).map (·.destination) := by
  rw [outgoing, h.index, h.successors, Digraph.position?_bind_getElem? formed.length_adjacency,
    Digraph.adjacency_getD]

private theorem arcs_eq (h : x.Indexes g) (formed : g.WellFormed) : x.arcs = g.arcs := by
  rw [arcs, h.successors, Digraph.adjacency, List.zipIdx_map, List.flatMap_map, Digraph.arcs,
    Digraph.positionedArcs, List.filterMap_flatMap]
  refine List.flatMap_congr fun entry member => ?_
  obtain ⟨row, p⟩ := entry
  have there : g.row p = row := by
    rw [Digraph.row, List.mem_zipIdx_iff_getElem?.mp member]
    rfl
  dsimp only [Prod.map, id]
  rw [List.filterMap_map, List.filterMap_map]
  refine List.filterMap_congr fun arc member => ?_
  rw [← there] at member
  obtain ⟨v, w, hv, hw⟩ := formed.exists_ends member
  simp only [Function.comp_apply, h.vertices, h.labels, hv, hw, formed.labelAt?_of_mem member]

private theorem answers_eq (h : x.Indexes g) (formed : g.WellFormed) : x.answers = g.answers := by
  have labels : x.label? = g.label? := funext₂ (h.label?_eq formed)
  have inside : g.indegrees.length = g.order := by simp [formed.indegrees_eq]
  have known : ∀ v, x.index.contains v = g.hasVertex v := by
    intro v
    rw [Std.HashMap.contains_eq_isSome_getElem?, h.index]
    exact Bool.eq_iff_iff.mpr (List.isSome_idxOf?.trans decide_eq_true_iff.symm)
  unfold answers
  simp only [labels, known, h.index, h.vertices, h.size, h.arcs_eq formed, h.outgoing_eq formed,
    h.indegrees, Digraph.position?_bind_getElem? inside, List.filterMap_map, List.length_map]
  rfl

end Indexes

end IndexedDigraph

namespace Digraph

variable {V E : Type} [DecidableEq V] [Hashable V]

private theorem Lists.indexes_editAll {g : Digraph V E} {r : ArcList V E} {x : IndexedDigraph V E}
    (lists : g.Lists r) (indexes : x.Indexes g) (edits : List (Edit V E)) :
    (x.editAll edits).Indexes (g.editAll edits) := by
  induction edits generalizing g r x with
  | nil => exact indexes
  | cons e edits ih => exact ih (lists.edit e) (indexes.edit lists.formed e)

/-- A graph that has gone through any run of edits, with the tables or without them, answers what
the plain list of arcs answers: vertices by first mention, pairs by first put and under each its
last label. Positions and vertices are inverse to each other, and no vertex, successor or pair is
listed twice. A label that is put takes the place of the one that is told, and moves no arc. -/
theorem edited_answers_as_listed (edits : List (Edit V E)) :
    let r : ArcList V E := ArcList.editAll {} edits
    let g : Digraph V E := editAll {} edits
    let x : IndexedDigraph V E := IndexedDigraph.editAll {} edits
    r.Recounts edits ∧ g.answers = r.answers ∧ x.answers = r.answers ∧ x.Consistent ∧
      g.vertices.Nodup ∧ (∀ v p, g.position? v = some p ↔ g.vertices[p]? = some v) ∧
      (∀ v, (g.successors v).Nodup) ∧ r.pairs.Nodup ∧ g.arcs.Perm r.arcs ∧
      (∀ v w label, (g.replaceArc v w label).1 = r.label? v w ∧
        (x.putArc v w label).1 = r.label? v w) ∧
      (∀ v w label, g.hasArc v w = true → (g.putArc v w label).vertices = g.vertices ∧
        (g.putArc v w label).arcs = g.arcs.map (ArcList.relabel v w fun _ => label)) ∧
      ∀ v w change, (g.adjustArc v w change).vertices = g.vertices ∧
        (g.adjustArc v w change).arcs = g.arcs.map (ArcList.relabel v w change) := by
  intro r g x
  have lists : g.Lists r := Lists.empty.editAll edits
  have indexes : x.Indexes g := Lists.empty.indexes_editAll IndexedDigraph.indexes_empty edits
  have recounts : r.Recounts edits := ArcList.recounts_editAll edits
  have formed := lists.formed
  refine ⟨recounts, lists.answers_eq, (indexes.answers_eq formed).trans lists.answers_eq,
    indexes.consistent formed, formed.vertices_nodup, fun v p => formed.position?_eq_some_iff,
    fun v => ?_, recounts.pairs ▸ nodup_eraseDups _, lists.arcs_perm,
    fun v w label => ⟨lists.label?_eq v w, ?_⟩, fun v w label arc => ?_,
    fun v w change => ⟨rfl, lists.arcs_adjustArc_eq v w change⟩⟩
  · rw [lists.successors_eq]
    exact recounts.nodup_successors v
  · rw [(indexes.putArc formed v w label).1, (lists.addVertex v).label?_addVertex,
      lists.label?_addVertex, lists.label?_eq]
  · rw [formed.putArc_of_hasArc arc]
    exact ⟨rfl, lists.arcs_adjustArc_eq v w _⟩

theorem edited_answers_as_listed_again :
    let edits : List (Edit Nat Nat) :=
      [.putArc 2 1 5, .putArc 1 2 3, .putArc 2 2 6, .putArc 2 1 8, .adjustArc 2 2 (· + 1)]
    let g : Digraph Nat Nat := editAll {} edits
    g.arcs = [(2, 1, 8), (2, 2, 7), (1, 2, 3)] ∧ g.answers = (ArcList.editAll {} edits).answers ∧
      g.hasArc 2 1 = true ∧ (g.replaceArc 2 1 9).1 = (ArcList.editAll {} edits).label? 2 1 ∧
      (g.putArc 2 1 9).arcs = g.arcs.map (ArcList.relabel 2 1 fun _ => 9) := by
  intro edits g
  have there : g.hasArc 2 1 = true := by decide
  obtain ⟨-, answers, -, -, -, -, -, -, -, previous, overwritten, -⟩ :=
    edited_answers_as_listed edits
  exact ⟨by decide, answers, there, (previous 2 1 9).1, (overwritten 2 1 9 there).2⟩

end Digraph

end ObjectRelational
