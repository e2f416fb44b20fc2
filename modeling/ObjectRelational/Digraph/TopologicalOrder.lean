import ObjectRelational.Digraph.Basic
import ObjectRelational.Order.StableSort

set_option autoImplicit false
set_option relaxedAutoImplicit false

/-!
Topological orders. A vertex is emitted once every arc that ends at it has been consumed; among
the vertices that are ready the preferred one goes first. The emission stops early when a cycle
keeps vertices back.
-/

namespace ObjectRelational

/-- Some vertices could not be ordered because of a cycle. -/
structure CycleError where
  /-- The vertices that are left. -/
  unsorted : Nat
  /-- The vertices of the graph. -/
  total : Nat
  deriving Repr, DecidableEq

def CycleError.message (e : CycleError) : String :=
  "graph is not acyclic: " ++ toString e.unsorted ++ " of " ++ toString e.total ++
    " vertices could not be ordered"

namespace Digraph

open ObjectRelational.Order

/-- A topological order in progress, over the positions of a graph. -/
structure Emission where
  /-- For each vertex the number of arcs that end at it and are not consumed. -/
  remaining : List Nat
  /-- The vertices that may be emitted, the preferred first. -/
  ready : List Nat
  /-- The vertices emitted, the latest first. -/
  emitted : List Nat := []
  deriving Repr, DecidableEq

namespace Emission

/-- Nothing emitted; the vertices without incoming arcs are ready. -/
def start (prefers : Nat → Nat → Bool) (indegrees : List Nat) : Emission where
  remaining := indegrees
  ready := stableSort prefers
    ((List.range indegrees.length).filter fun p => indegrees[p]? == some 0)

/-- Consumes one arc that ends at `p`, which becomes ready with the last of them. -/
def release (prefers : Nat → Nat → Bool) (s : Emission) (p : Nat) : Emission :=
  match s.remaining[p]? with
  | some (k + 1) =>
    { s with
      remaining := s.remaining.set p k
      ready := if k = 0 then insertBy prefers p s.ready else s.ready }
  | _ => s

/-- Emits the preferred vertex and consumes the arcs that leave it. -/
def next? (adjacency : List (List Nat)) (prefers : Nat → Nat → Bool) (s : Emission) :
    Option (Nat × Emission) :=
  match s.ready with
  | [] => none
  | p :: ready =>
    some (p, (adjacency[p]?.getD []).foldl (release prefers)
      { s with ready, emitted := p :: s.emitted })

/-- The number of arcs behind a list of counts. -/
def total : List Nat → Nat
  | [] => 0
  | count :: counts => count + total counts

/-- Bounds the number of emissions to come. -/
def outstanding (s : Emission) : Nat := s.ready.length + total s.remaining

private theorem total_set_pred (remaining : List Nat) (p k : Nat)
    (h : remaining[p]? = some (k + 1)) : total (remaining.set p k) + 1 = total remaining := by
  induction remaining generalizing p with
  | nil => simp at h
  | cons r remaining ih =>
    cases p with
    | zero =>
      obtain rfl : r = k + 1 := by simpa using h
      simp only [List.set_cons_zero, total]
      omega
    | succ p =>
      have rest := ih p (by simpa using h)
      simp only [List.set_cons_succ, total]
      omega

/-- Consuming an arc pays for the vertex that it may make ready. -/
private theorem outstanding_release_le (prefers : Nat → Nat → Bool) (s : Emission) (p : Nat) :
    (s.release prefers p).outstanding ≤ s.outstanding := by
  unfold release
  split
  · rename_i k h
    have paid := total_set_pred s.remaining p k h
    unfold outstanding
    dsimp only
    split
    · rw [length_insertBy]
      omega
    · omega
  · exact Nat.le_refl _

private theorem outstanding_foldl_release_le (prefers : Nat → Nat → Bool) (ps : List Nat)
    (s : Emission) : (ps.foldl (release prefers) s).outstanding ≤ s.outstanding := by
  induction ps generalizing s with
  | nil => exact Nat.le_refl _
  | cons p ps ih => exact Nat.le_trans (ih _) (outstanding_release_le prefers s p)

private theorem outstanding_next?_lt (adjacency : List (List Nat)) (prefers : Nat → Nat → Bool)
    {s t : Emission} {p : Nat} (h : s.next? adjacency prefers = some (p, t)) :
    t.outstanding < s.outstanding := by
  unfold next? at h
  split at h
  · cases h
  · rename_i q ready hready
    injection h with h
    injection h with _ h
    subst h
    refine Nat.lt_of_le_of_lt (outstanding_foldl_release_le prefers _ _) ?_
    simp only [outstanding, hready, List.length_cons]
    omega

/-- Emits until nothing is ready. -/
def drain (adjacency : List (List Nat)) (prefers : Nat → Nat → Bool) (s : Emission) : Emission :=
  match h : s.next? adjacency prefers with
  | none => s
  | some (p, t) =>
    have : t.outstanding < s.outstanding := outstanding_next?_lt adjacency prefers h
    drain adjacency prefers t
termination_by s.outstanding

end Emission

variable {V E K : Type}

/-- Prefers the smaller key, and among equal keys the earlier position. -/
def prefersKey [Ord K] (keys : List K) (p q : Nat) : Bool :=
  ((compare keys[p]? keys[q]?).then (compare p q)).isLT

/-- Prefers the vertex that was added earlier. -/
def prefersEarlier (p q : Nat) : Bool := decide (p < q)

/-- Prefers the vertex with the smaller key, then the one that was added earlier. -/
def prefersBy [Ord K] (g : Digraph V E) (key : V → K) : Nat → Nat → Bool :=
  prefersKey (g.vertices.map key)

/-- The emission of a graph before its first vertex. -/
def emission (g : Digraph V E) (prefers : Nat → Nat → Bool) : Emission :=
  .start prefers g.indegrees

/-- The next vertex and the emission behind it. -/
def emit? (g : Digraph V E) (prefers : Nat → Nat → Bool) (s : Emission) :
    Option (Nat × Emission) :=
  s.next? g.adjacency prefers

/-- Whether every vertex was emitted. -/
def isComplete (g : Digraph V E) (s : Emission) : Bool := s.emitted.length == g.order

/-- The positions that an emission reaches, in its order. -/
def emittedPositions (g : Digraph V E) (prefers : Nat → Nat → Bool) : List Nat :=
  ((g.emission prefers).drain g.adjacency prefers).emitted.reverse

/-- The vertices in topological order. -/
def topologicalOrder (g : Digraph V E) (prefers : Nat → Nat → Bool) :
    Except CycleError (List V) :=
  let emitted := g.emittedPositions prefers
  if emitted.length = g.order then .ok (emitted.filterMap (g.vertices[·]?))
  else .error ⟨g.order - emitted.length, g.order⟩

end Digraph

end ObjectRelational
