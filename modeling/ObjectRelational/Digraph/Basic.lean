set_option autoImplicit false
set_option relaxedAutoImplicit false

/-!
Directed graphs whose vertices are values, with at most one labelled arc for each ordered pair.
Vertices are numbered by the order of their first mention, and every listing follows that order
and, among the arcs that leave one vertex, the order in which they were first put.
-/

namespace ObjectRelational

/-- An arc, kept with the vertex that it leaves. -/
structure Arc (E : Type) where
  /-- Position of the vertex where the arc ends. -/
  destination : Nat
  label : E
  deriving Repr, DecidableEq

/-- The vertices, and for each of them the arcs that leave it and the number of those that end
at it. -/
structure Digraph (V E : Type) where
  vertices : List V := []
  rows : List (List (Arc E)) := []
  indegrees : List Nat := []
  deriving Repr, DecidableEq

namespace Digraph

variable {V E : Type}

/-- The arcs that leave the vertex at a position. -/
def row (g : Digraph V E) (origin : Nat) : List (Arc E) :=
  g.rows[origin]?.getD []

/-- The label between two positions. -/
def labelAt? (g : Digraph V E) (origin destination : Nat) : Option E :=
  ((g.row origin).find? (·.destination == destination)).map (·.label)

/-- Changes the label between two positions, if there is an arc. -/
def adjustArcAt (g : Digraph V E) (origin destination : Nat) (f : E → E) : Digraph V E :=
  { g with
    rows := g.rows.modify origin fun row => row.map fun arc =>
      if arc.destination = destination then { arc with label := f arc.label } else arc }

/-- Overwrites the label between two positions where it stands, or adds the arc behind the others
of its origin. -/
def putArcAt (g : Digraph V E) (origin destination : Nat) (label : E) : Digraph V E :=
  if (g.labelAt? origin destination).isSome then
    g.adjustArcAt origin destination fun _ => label
  else
    { g with
      rows := g.rows.modify origin (· ++ [⟨destination, label⟩])
      indegrees := g.indegrees.modify destination (· + 1) }

/-- Extends the label between two positions, or adds the arc. -/
def appendArcAt (g : Digraph V (List E)) (origin destination : Nat) (label : List E) :
    Digraph V (List E) :=
  if (g.labelAt? origin destination).isSome then
    g.adjustArcAt origin destination (· ++ label)
  else
    g.putArcAt origin destination label

/-- The number of vertices. -/
def order (g : Digraph V E) : Nat := g.vertices.length

/-- The number of arcs. -/
def size (g : Digraph V E) : Nat := g.rows.flatten.length

def isEmpty (g : Digraph V E) : Bool := g.vertices.isEmpty

/-- Positions of the vertices that the arcs of each vertex lead to. -/
def adjacency (g : Digraph V E) : List (List Nat) :=
  g.rows.map fun row => row.map (·.destination)

/-- All arcs, each behind the position of its origin. -/
def positionedArcs (g : Digraph V E) : List (Nat × Arc E) :=
  g.rows.zipIdx.flatMap fun (row, origin) => row.map fun arc => (origin, arc)

/-- All arcs as origin, destination and label, grouped by origin. -/
def arcs (g : Digraph V E) : List (V × V × E) :=
  g.positionedArcs.filterMap fun (origin, arc) =>
    match g.vertices[origin]?, g.vertices[arc.destination]? with
    | some v, some w => some (v, w, arc.label)
    | _, _ => none

variable [DecidableEq V]

/-- Where a vertex stands, counted from zero. -/
def position? (g : Digraph V E) (v : V) : Option Nat := g.vertices.idxOf? v

/-- Where a vertex stands; behind the last for a value that is no vertex. -/
def position (g : Digraph V E) (v : V) : Nat := g.vertices.idxOf v

def hasVertex (g : Digraph V E) (v : V) : Bool := decide (v ∈ g.vertices)

/-- Adds a vertex behind the others, unless it is there. -/
def addVertex (g : Digraph V E) (v : V) : Digraph V E :=
  if v ∈ g.vertices then g
  else
    { vertices := g.vertices ++ [v]
      rows := g.rows ++ [[]]
      indegrees := g.indegrees ++ [0] }

/-- The graph on a list of values without arcs. -/
def ofVertices (vs : List V) : Digraph V E := vs.foldl addVertex {}

/-- The label of the arc between two vertices. -/
def label? (g : Digraph V E) (origin destination : V) : Option E :=
  g.labelAt? (g.position origin) (g.position destination)

def hasArc (g : Digraph V E) (origin destination : V) : Bool :=
  (g.label? origin destination).isSome

/-- Puts an arc between two values, which become vertices if they are none. -/
def putArc (g : Digraph V E) (origin destination : V) (label : E) : Digraph V E :=
  let g := (g.addVertex origin).addVertex destination
  g.putArcAt (g.position origin) (g.position destination) label

/-- Puts an arc and tells the label that it replaces. -/
def replaceArc (g : Digraph V E) (origin destination : V) (label : E) :
    Option E × Digraph V E :=
  (g.label? origin destination, g.putArc origin destination label)

/-- Changes the label of an arc where it stands. -/
def adjustArc (g : Digraph V E) (origin destination : V) (f : E → E) : Digraph V E :=
  g.adjustArcAt (g.position origin) (g.position destination) f

/-- Extends the label of an arc, or puts the arc. -/
def appendArc (g : Digraph V (List E)) (origin destination : V) (label : List E) :
    Digraph V (List E) :=
  if g.hasArc origin destination then g.adjustArc origin destination (· ++ label)
  else g.putArc origin destination label

/-- The vertices that the arcs of a vertex lead to. -/
def successors (g : Digraph V E) (v : V) : List V :=
  (g.row (g.position v)).filterMap fun arc => g.vertices[arc.destination]?

/-- The number of arcs that end at a vertex. -/
def indegree (g : Digraph V E) (v : V) : Nat := g.indegrees[g.position v]?.getD 0

/-- The number of arcs that leave a vertex. -/
def outdegree (g : Digraph V E) (v : V) : Nat := (g.row (g.position v)).length

end Digraph

end ObjectRelational
