import ObjectRelational.Digraph.Basic
import ObjectRelational.Order.StableSort

set_option autoImplicit false
set_option relaxedAutoImplicit false

/-!
Strongly connected components by one depth-first search with an explicit stack of frames. A step
uses up a root, a pending successor or a frame, and entering a vertex pays for its frame and its
successors in advance; so the search ends after as many steps as its initial `budget` says. The
contraction of a graph has one vertex for each component, and between two components one arc that
collects the labels of all arcs between their members.
-/

namespace ObjectRelational.Digraph

open ObjectRelational.Order

/-- A vertex under exploration and the successors still to be looked at. -/
structure Frame where
  vertex : Nat
  pending : List Nat
  deriving Repr, DecidableEq

/-- A depth-first search in progress, over the positions of a graph. -/
structure Search where
  /-- Vertices not yet tried as a root. -/
  roots : List Nat
  /-- Vertices under exploration, the innermost first. -/
  frames : List Frame := []
  /-- When each vertex was entered, if it was. -/
  index : List (Option Nat)
  /-- The least entry time known to be reachable inside the component of each vertex. -/
  lowlink : List Nat
  /-- Whether each vertex is entered and still without a component. -/
  onStack : List Bool
  /-- Vertices without a component, the latest first. -/
  stack : List Nat := []
  /-- How many vertices were entered. -/
  entered : Nat := 0
  /-- Finished components, the latest first. -/
  components : List (List Nat) := []
  deriving Repr, DecidableEq

/-- The elements down to and including `v`, and what is below. -/
def popThrough (v : Nat) : List Nat → List Nat × List Nat
  | [] => ([], [])
  | w :: rest =>
    if w = v then ([w], rest)
    else
      let (popped, kept) := popThrough v rest
      (w :: popped, kept)

namespace Search

/-- A search that has entered nothing. -/
def start (order : Nat) : Search where
  roots := List.range order
  index := List.replicate order none
  lowlink := List.replicate order 0
  onStack := List.replicate order false

def isFresh (s : Search) (v : Nat) : Bool := s.index[v]? == some none

def isOnStack (s : Search) (v : Nat) : Bool := s.onStack[v]? == some true

/-- The entry time of a vertex. -/
def entryOf (s : Search) (v : Nat) : Nat := (s.index[v]?.join).getD 0

def lowlinkOf (s : Search) (v : Nat) : Nat := s.lowlink[v]?.getD 0

/-- Opens a frame for a vertex. -/
def enter (adjacency : List (List Nat)) (v : Nat) (s : Search) : Search :=
  { s with
    frames := ⟨v, adjacency[v]?.getD []⟩ :: s.frames
    index := s.index.set v (some s.entered)
    lowlink := s.lowlink.set v s.entered
    onStack := s.onStack.set v true
    stack := v :: s.stack
    entered := s.entered + 1 }

/-- Lowers the lowlink of a vertex to a bound. -/
def lower (v bound : Nat) (s : Search) : Search :=
  { s with lowlink := s.lowlink.set v (min (s.lowlinkOf v) bound) }

/-- Makes what lies on the stack down to `v` a component. -/
def popComponent (v : Nat) (s : Search) : Search :=
  let (members, stack) := popThrough v s.stack
  { s with
    stack
    onStack := members.foldl (fun marks w => marks.set w false) s.onStack
    components := stableSort (fun p q => decide (p < q)) members :: s.components }

/-- Leaves an explored vertex, whose frame is already gone: the vertex below it inherits the
lowlink, and a vertex from which nothing older is reachable closes its component. -/
def leave (v : Nat) (s : Search) : Search :=
  let s :=
    match s.frames with
    | [] => s
    | parent :: _ => s.lower parent.vertex (s.lowlinkOf v)
  if s.lowlinkOf v = s.entryOf v then s.popComponent v else s

/-- One step of the search; `none` at the end. -/
def step? (adjacency : List (List Nat)) (s : Search) : Option Search :=
  match s.frames with
  | [] =>
    match s.roots with
    | [] => none
    | root :: roots =>
      let s := { s with roots }
      some (if s.isFresh root then s.enter adjacency root else s)
  | ⟨v, w :: pending⟩ :: frames =>
    let s := { s with frames := ⟨v, pending⟩ :: frames }
    some <|
      if s.isFresh w then s.enter adjacency w
      else if s.isOnStack w then s.lower v (s.entryOf w)
      else s
  | ⟨v, []⟩ :: frames => some ({ s with frames }.leave v)

/-- What entering a vertex costs later: its frame and each of its successors. -/
def entryCost (adjacency : List (List Nat)) (v : Nat) : Nat :=
  (adjacency[v]?.getD []).length + 1

/-- The cost of the vertices not yet entered, for marks that begin at a position. -/
def freshCost (adjacency : List (List Nat)) : Nat → List (Option Nat) → Nat
  | _, [] => 0
  | v, none :: index => entryCost adjacency v + freshCost adjacency (v + 1) index
  | v, some _ :: index => freshCost adjacency (v + 1) index

/-- The number of steps that are left. -/
def budget (adjacency : List (List Nat)) (s : Search) : Nat :=
  s.roots.length + (s.frames.flatMap fun f => f.vertex :: f.pending).length +
    freshCost adjacency 0 s.index

/-- Entering a fresh vertex turns its cost into a frame. -/
private theorem freshCost_set (adjacency : List (List Nat)) (offset : Nat) (index : List (Option Nat))
    (v t : Nat) (fresh : index[v]? = some none) :
    freshCost adjacency offset (index.set v (some t)) + entryCost adjacency (offset + v) =
      freshCost adjacency offset index := by
  induction index generalizing v offset with
  | nil => simp at fresh
  | cons entry index ih =>
    cases v with
    | zero =>
      obtain rfl : entry = none := by simpa using fresh
      simp only [List.set_cons_zero, freshCost, Nat.add_zero]
      omega
    | succ v =>
      have rest := ih (offset + 1) v (by simpa using fresh)
      rw [show offset + 1 + v = offset + (v + 1) by omega] at rest
      cases entry <;> simp only [List.set_cons_succ, freshCost] <;> omega

private theorem budget_enter (adjacency : List (List Nat)) (s : Search) (v : Nat)
    (fresh : s.isFresh v = true) :
    (s.enter adjacency v).budget adjacency = s.budget adjacency := by
  have paid := freshCost_set adjacency 0 s.index v s.entered (by simpa [isFresh] using fresh)
  simp only [budget, enter, List.flatMap_cons, List.length_append, List.length_cons,
    entryCost, Nat.zero_add] at paid ⊢
  omega

private theorem budget_lower (adjacency : List (List Nat)) (s : Search) (v bound : Nat) :
    (s.lower v bound).budget adjacency = s.budget adjacency := rfl

private theorem budget_popComponent (adjacency : List (List Nat)) (s : Search) (v : Nat) :
    (s.popComponent v).budget adjacency = s.budget adjacency := rfl

private theorem budget_leave (adjacency : List (List Nat)) (s : Search) (v : Nat) :
    (s.leave v).budget adjacency = s.budget adjacency := by
  unfold leave
  cases s.frames <;> dsimp only <;> split <;> simp [budget_popComponent, budget_lower]

/-- Every step uses up one unit of the budget. -/
theorem budget_step? (adjacency : List (List Nat)) {s t : Search}
    (h : s.step? adjacency = some t) : t.budget adjacency + 1 = s.budget adjacency := by
  unfold step? at h
  split at h
  · rename_i noFrame
    split at h
    · cases h
    · rename_i root roots hroots
      injection h with h
      subst h
      split
      · rename_i fresh
        rw [budget_enter _ _ _ fresh]
        simp only [budget, noFrame, hroots, List.length_cons]
        omega
      · simp only [budget, noFrame, hroots, List.length_cons]
        omega
  · rename_i v w pending frames hframes
    injection h with h
    subst h
    split
    · rename_i fresh
      rw [budget_enter _ _ _ fresh]
      simp only [budget, hframes, List.flatMap_cons, List.length_append, List.length_cons]
      omega
    · split
      · rw [budget_lower]
        simp only [budget, hframes, List.flatMap_cons, List.length_append, List.length_cons]
        omega
      · simp only [budget, hframes, List.flatMap_cons, List.length_append, List.length_cons]
        omega
  · rename_i v frames hframes
    injection h with h
    subst h
    rw [budget_leave]
    simp only [budget, hframes, List.flatMap_cons, List.length_append, List.length_cons,
      List.length_nil]
    omega

/-- Runs a search to its end. -/
def run (adjacency : List (List Nat)) (s : Search) : Search :=
  match h : s.step? adjacency with
  | none => s
  | some t =>
    have : t.budget adjacency < s.budget adjacency := by
      have := budget_step? adjacency h
      omega
    run adjacency t
termination_by s.budget adjacency

end Search

variable {V E : Type}

/-- The strongly connected components as lists of positions: the members of each in increasing
order, the components by their first members. -/
def componentPositions (g : Digraph V E) : List (List Nat) :=
  stableSort (fun c d => decide (c.headD 0 < d.headD 0))
    ((Search.start g.order).run g.adjacency).components.reverse

/-- The vertices at a list of positions. -/
def verticesAt (g : Digraph V E) (positions : List Nat) : List V :=
  positions.filterMap (g.vertices[·]?)

/-- The strongly connected components. -/
def components (g : Digraph V E) : List (List V) :=
  g.componentPositions.map g.verticesAt

/-- Number of the component that holds a position. -/
def componentOf (components : List (List Nat)) (p : Nat) : Nat :=
  components.findIdx (·.contains p)

/-- Adds an arc of the graph to the contraction; an arc inside a component is dropped. -/
def contractArc (components : List (List Nat)) (c : Digraph (List V) (List E))
    (arc : Nat × Arc E) : Digraph (List V) (List E) :=
  let origin := componentOf components arc.1
  let destination := componentOf components arc.2.destination
  if origin = destination then c else c.appendArcAt origin destination [arc.2.label]

/-- Collapses every strongly connected component into one vertex. -/
def contract [DecidableEq V] (g : Digraph V E) : Digraph (List V) (List E) :=
  let components := g.componentPositions
  g.positionedArcs.foldl (contractArc components) (ofVertices (components.map g.verticesAt))

end ObjectRelational.Digraph
