import ObjectRelational.Proofs.Path.Requests
import ObjectRelational.Proofs.Path.Route

set_option autoImplicit false
set_option relaxedAutoImplicit false

/-!
Relationships of objects at the end of a path and inside of it. Both ways come to the last
relationship between tables that one stands for, over the same joins. A path goes on behind it,
or ends on it.
-/

namespace ObjectRelational

private theorem Route.joins_endOn (route : Route) (r : Relationship) (s : Segment) (forced : Bool) :
    (route.endOn r s forced).joins =
      if (route.endOn r s forced).destination.isJoined then (route.cross r s).joins
      else (route.cross r s).joins.dropLast := by
  unfold endOn
  split
  · rfl
  · exact List.dropLast_concat.symm

namespace Catalog

variable {c : Catalog} {route : Route} {r : ObjectRelationship} {s : Segment} {path : String}

/-- The last relationship that a relationship of an object stands for, and the route to it. -/
def lastCrossing (c : Catalog) (route : Route) (r : ObjectRelationship) (s : Segment) :
    Except MappingError (Route × Relationship) := do
  let front ← c.crossAll r.path s route r.frontHops
  let hop ← c.relationshipOn front.table r.lastHop r.path
  return (front, hop)

private theorem crossAll_concat (hops : List String) (hop : String) :
    c.crossAll path s route (hops ++ [hop]) = do
      let front ← c.crossAll path s route hops
      let last ← c.relationshipOn front.table hop path
      return front.cross last (s.rename hop) := by
  induction hops generalizing route with
  | nil => rfl
  | cons first hops ih =>
    rw [List.cons_append, crossAll, crossAll, bind_assoc]
    simp only [ih]

private theorem map_lastCrossing {α : Type} (f : Route × Relationship → α) :
    (c.lastCrossing route r s).map f = do
      let front ← c.crossAll r.path s route r.frontHops
      let hop ← c.relationshipOn front.table r.lastHop r.path
      return f (front, hop) := by
  rw [lastCrossing]
  cases c.crossAll r.path s route r.frontHops with
  | error e => rfl
  | ok front =>
    dsimp only [bind, Except.bind]
    cases c.relationshipOn front.table r.lastHop r.path <;> rfl

private theorem endOnObject_eq_map :
    c.endOnObject route r s =
      (c.lastCrossing route r s).map fun (front, hop) =>
        front.endOn hop (s.rename r.lastHop) false := by
  rw [map_lastCrossing]
  unfold endOnObject ObjectRelationship.frontHops ObjectRelationship.lastHop
  cases empty : (Text.cutLastDot r.path).1.isEmpty <;> simp [empty, crossAll]

private theorem crossObject_eq_map (kept : r.components ≠ ["", r.lastHop]) :
    c.crossObject route r s =
      (c.lastCrossing route r s).map fun (front, hop) =>
        front.cross hop (s.rename r.lastHop) := by
  rw [map_lastCrossing, crossObject, r.components_eq_of_ne kept, crossAll_concat]

/-- Unless it stands for an empty relationship in front of a single other one, a relationship of an
object can be crossed exactly if a path can end on it. The path then leads to where the crossing
does, and ends on the relationship that is crossed last, which is the only one that it may leave
without a join. -/
theorem endOnObject_as_crossed (c : Catalog) (route : Route) {r : ObjectRelationship}
    (s : Segment) (kept : r.components ≠ ["", r.lastHop]) :
    (∀ e, c.endOnObject route r s = .error e ↔ c.crossObject route r s = .error e) ∧
    ((∃ resolution, c.endOnObject route r s = .ok resolution) ↔
      ∃ reached, c.crossObject route r s = .ok reached) ∧
    ∀ resolution reached, c.endOnObject route r s = .ok resolution →
      c.crossObject route r s = .ok reached →
      resolution.destination.finalPath = reached.path ∧
        (∃ hop, resolution.destination.relationship? = some hop ∧ hop.target = reached.table ∧
          reached.joins.getLast? = some ⟨reached.path, hop, .ofOuter s.outer⟩) ∧
        resolution.joins =
          if resolution.destination.isJoined then reached.joins else reached.joins.dropLast := by
  rw [endOnObject_eq_map, crossObject_eq_map kept]
  cases c.lastCrossing route r s with
  | error e => simp [Except.map]
  | ok last =>
    obtain ⟨front, hop⟩ := last
    simp only [Except.map, Except.ok.injEq, exists_eq', reduceCtorEq, implies_true, iff_self,
      true_and]
    rintro _ _ rfl rfl
    refine ⟨Route.finalPath_endOn _ _ _ _, ⟨hop, Route.relationship?_endOn _ _ _ _, rfl, ?_⟩, ?_⟩
    · exact List.getLast?_concat
    · exact Route.joins_endOn _ _ _ _

end Catalog

namespace Lending

def lender : ObjectRelationship := ⟨"lender", "Artist", ".toArtist"⟩

def others : ObjectRelationship := ⟨"others", "Painting", "toArtist.paintingArray"⟩

def loan : ObjectEntity where
  name := "Loan"
  table := "PAINTING"
  relationships := [lender, others]

def map : DataMap := { Gallery.map with objects := Gallery.map.objects ++ [loan] }

def schema : Catalog :=
  match Catalog.compile [map] {} with
  | (.ok c, _) => c
  | (.error _, _) => ⟨[], [], [], []⟩

end Lending

namespace Catalog

open Lending

theorem endOnObject_as_crossed_others :
    let route : Route := { table := Gallery.paintingTable, path := "" }
    let s : Segment := ⟨"others", some "o", true⟩
    others.components ≠ ["", others.lastHop] ∧
      ((∃ resolution, schema.endOnObject route others s = .ok resolution) ↔
        ∃ reached, schema.crossObject route others s = .ok reached) ∧
      ∃ resolution reached, schema.endOnObject route others s = .ok resolution ∧
        schema.crossObject route others s = .ok reached ∧
        reached.path = "toArtist#o+.paintingArray#o+" ∧
        resolution.destination.finalPath = reached.path ∧ resolution.joins = reached.joins := by
  intro route s
  have kept : others.components ≠ ["", others.lastHop] := by decide +kernel
  obtain ⟨-, both, agree⟩ := endOnObject_as_crossed schema route s kept
  obtain ⟨resolution, ended, joined⟩ : ∃ resolution,
      schema.endOnObject route others s = .ok resolution ∧
        resolution.destination.isJoined = true := ⟨_, rfl, rfl⟩
  obtain ⟨reached, crossed, path⟩ : ∃ reached, schema.crossObject route others s = .ok reached ∧
      reached.path = "toArtist#o+.paintingArray#o+" := ⟨_, rfl, by decide +kernel⟩
  obtain ⟨same_path, -, joins⟩ := agree resolution reached ended crossed
  rw [joined, if_pos rfl] at joins
  exact ⟨kept, both, resolution, reached, ended, crossed, path, same_path, joins⟩

/-- An empty relationship in front is left out at the end of a path, and looked for inside. -/
theorem endOnObject_ne_crossed :
    let route : Route := { table := Gallery.paintingTable, path := "" }
    let s : Segment := ⟨"lender", none, false⟩
    (∃ resolution, schema.endOnObject route lender s = .ok resolution) ∧
      schema.crossObject route lender s =
        .error (.unresolvedComponent "" ".toArtist" "PAINTING") :=
  ⟨⟨_, rfl⟩, rfl⟩

end Catalog

end ObjectRelational
