import ObjectRelational.Path.Route
import ObjectRelational.Proofs.Data.Except
import ObjectRelational.Proofs.Text.Dotted

set_option autoImplicit false
set_option relaxedAutoImplicit false

/-!
What it takes for a path to lead somewhere, said once for each step of a walk: what the catalog
holds for the step's name, and where the rest leads from there.
-/

namespace ObjectRelational

namespace ObjectRelationship

def frontHops (r : ObjectRelationship) : List String :=
  let front := (Text.cutLastDot r.path).1
  if front.isEmpty then [] else Text.dotted front

def lastHop (r : ObjectRelationship) : String := (Text.cutLastDot r.path).2

private theorem components_cases (r : ObjectRelationship) :
    r.components = r.frontHops ++ [r.lastHop] ∨
      r.frontHops = [] ∧ r.components = ["", r.lastHop] := by
  -- an empty relationship that is alone in front of the last is taken for no front at all
  obtain ⟨front, last, parts, cut⟩ := Text.exists_cutLastDot r.path
  have last_eq : r.lastHop = last := by rw [lastHop, cut]
  rw [components, parts, last_eq, frontHops, cut]
  rcases Text.front_cases parts with rfl | rfl | ⟨filled, rejoined⟩
  · exact .inl rfl
  · exact .inr ⟨rfl, rfl⟩
  · left
    simp only [String.isEmpty_iff, filled, if_false, rejoined]

theorem components_eq_of_ne {r : ObjectRelationship} (kept : r.components ≠ ["", r.lastHop]) :
    r.components = r.frontHops ++ [r.lastHop] :=
  r.components_cases.resolve_right fun lost => kept lost.2

theorem hasDot_of_mem_frontHops {r : ObjectRelationship} {hop : String}
    (member : hop ∈ r.frontHops) : Text.hasDot hop = false := by
  dsimp only [frontHops] at member
  split at member
  · cases member
  · exact Text.hasDot_of_mem_dotted member

end ObjectRelationship

namespace Route

theorem relationship?_endOn (route : Route) (r : Relationship) (s : Segment) (forced : Bool) :
    (route.endOn r s forced).destination.relationship? = some r := by
  unfold endOn
  split <;> rfl

theorem finalPath_endOn (route : Route) (r : Relationship) (s : Segment) (forced : Bool) :
    (route.endOn r s forced).destination.finalPath = Path.append route.path s.text := by
  unfold endOn
  split <;> rfl

end Route

namespace Catalog

variable {c : Catalog} {path : String} {forced : Bool} {object : ObjectEntity} {route : Route}
  {segment last : Segment} {rest : List Segment} {resolution : Resolution}

private theorem relationshipOn_eq_ok_iff {table : Table} {name : String} {r : Relationship} :
    c.relationshipOn table name path = .ok r ↔ c.relationship? table.name name = some r := by
  unfold relationshipOn
  cases c.relationship? table.name name with
  | none => exact ⟨nofun, nofun⟩
  | some found => simp

private theorem objectRelationshipOn_eq_ok_iff {name : String} {r : ObjectRelationship} :
    objectRelationshipOn object name path = .ok r ↔ object.relationship? name = some r := by
  unfold objectRelationshipOn
  cases object.relationship? name with
  | none => exact ⟨nofun, nofun⟩
  | some found => simp

theorem followTables_singleton_eq_ok_iff :
    c.followTables path forced route [last] = .ok resolution ↔
      (∃ column, route.table.column? last.name = some column ∧ last.hasMarkers = false ∧
        route.endOnColumn column last.name = resolution) ∨
      (route.table.column? last.name = none ∧
        ∃ r, c.relationship? route.table.name last.name = some r ∧
          route.endOn r last forced = resolution) := by
  unfold followTables
  cases route.table.column? last.name with
  | some column => cases last.hasMarkers <;> simp
  | none =>
    simp only [bind_eq_ok_iff, relationshipOn_eq_ok_iff, pure, Except.pure, Except.ok.injEq]
    simp

theorem followTables_cons_eq_ok_iff (more : rest ≠ []) :
    c.followTables path forced route (segment :: rest) = .ok resolution ↔
      route.table.hasColumn segment.name = false ∧
        ∃ r, c.relationship? route.table.name segment.name = some r ∧
          c.followTables path forced (route.cross r segment) rest = .ok resolution := by
  obtain ⟨next, rest, rfl⟩ := List.exists_cons_of_ne_nil more
  rw [followTables]
  cases route.table.hasColumn segment.name with
  | true => simp
  | false => simp [bind_eq_ok_iff, relationshipOn_eq_ok_iff]

theorem followTables_eq_ok_congr (path path' : String) (segments : List Segment) :
    c.followTables path forced route segments = .ok resolution ↔
      c.followTables path' forced route segments = .ok resolution := by
  induction segments generalizing route with
  | nil => exact ⟨nofun, nofun⟩
  | cons segment rest ih =>
    by_cases last : rest = []
    · rw [last, followTables_singleton_eq_ok_iff, followTables_singleton_eq_ok_iff]
    · simp only [followTables_cons_eq_ok_iff last, ih]

theorem extendRoute_eq_ok_iff :
    c.extendRoute route path forced = .ok resolution ↔
      ∃ segments, Path.segments path = .ok segments ∧
        c.followTables path forced route segments = .ok resolution :=
  bind_eq_ok_iff

theorem crossAll_nil_eq_ok_iff {reached : Route} :
    c.crossAll path segment route [] = .ok reached ↔ route = reached := by
  rw [crossAll, Except.ok.injEq]

theorem crossAll_cons_eq_ok_iff {hop : String} {hops : List String} {reached : Route} :
    c.crossAll path segment route (hop :: hops) = .ok reached ↔
      ∃ r, c.relationship? route.table.name hop = some r ∧
        c.crossAll path segment (route.cross r (segment.rename hop)) hops = .ok reached := by
  rw [crossAll, bind_eq_ok_iff]
  simp only [relationshipOn_eq_ok_iff]

theorem endOnObject_eq_ok_iff {r : ObjectRelationship} :
    c.endOnObject route r segment = .ok resolution ↔
      ∃ reached, c.crossAll r.path segment route r.frontHops = .ok reached ∧
        ∃ hop, c.relationship? reached.table.name r.lastHop = some hop ∧
          reached.endOn hop (segment.rename r.lastHop) false = resolution := by
  unfold endOnObject ObjectRelationship.frontHops ObjectRelationship.lastHop
  cases front : (Text.cutLastDot r.path).1.isEmpty with
  | true =>
    simp [front, bind_eq_ok_iff, relationshipOn_eq_ok_iff, crossAll_nil_eq_ok_iff, pure,
      Except.pure]
  | false => simp [front, bind_eq_ok_iff, relationshipOn_eq_ok_iff, pure, Except.pure]

theorem followObjects_singleton_eq_ok_iff :
    c.followObjects path object route [last] = .ok resolution ↔
      (∃ a, object.attribute? last.name = some a ∧ last.hasMarkers = false ∧
        c.extendRoute route a.path true = .ok resolution) ∨
      (object.attribute? last.name = none ∧
        ∃ r, object.relationship? last.name = some r ∧
          c.endOnObject route r last = .ok resolution) := by
  unfold followObjects
  cases object.attribute? last.name with
  | some a => cases last.hasMarkers <;> simp
  | none => simp [bind_eq_ok_iff, objectRelationshipOn_eq_ok_iff]

theorem followObjects_cons_eq_ok_iff (more : rest ≠ []) :
    c.followObjects path object route (segment :: rest) = .ok resolution ↔
      object.attribute? segment.name = none ∧
        ∃ r, object.relationship? segment.name = some r ∧
          ∃ reached, c.crossAll r.path segment route r.components = .ok reached ∧
            ∃ target, c.requireObject r.target = .ok target ∧
              c.followObjects path target reached rest = .ok resolution := by
  obtain ⟨next, rest, rfl⟩ := List.exists_cons_of_ne_nil more
  rw [followObjects]
  cases object.attribute? segment.name with
  | some a => simp
  | none => simp [bind_eq_ok_iff, objectRelationshipOn_eq_ok_iff, crossObject]

theorem resolveObjectPath_eq_ok_iff {base : String} :
    c.resolveObjectPath object path base = .ok resolution ↔
      ∃ segments, Path.segments path = .ok segments ∧
        ∃ table, c.tableFor object = .ok table ∧
          c.followObjects path object { table, path := base } segments = .ok resolution := by
  simp only [resolveObjectPath, bind_eq_ok_iff]

section Endings

variable {r : Relationship}

theorem ends_of_followTables {segments : List Segment}
    (resolves : c.followTables path forced route segments = .ok resolution)
    (last : resolution.destination.relationship? = some r) :
    ∃ (reached : Route) (s : Segment), c.relationship? reached.table.name s.name = some r ∧
      resolution = reached.endOn r s forced := by
  induction segments generalizing route with
  | nil => cases resolves
  | cons segment rest ih =>
    by_cases final : rest = []
    · rw [final, followTables_singleton_eq_ok_iff] at resolves
      rcases resolves with ⟨column, -, -, rfl⟩ | ⟨-, found, named, rfl⟩
      · cases last
      · rw [route.relationship?_endOn] at last
        obtain rfl := Option.some.inj last
        exact ⟨route, segment, named, rfl⟩
    · obtain ⟨-, _, -, rest_resolves⟩ := (followTables_cons_eq_ok_iff final).mp resolves
      exact ih rest_resolves

theorem ends_of_followObjects {segments : List Segment}
    (resolves : c.followObjects path object route segments = .ok resolution)
    (last : resolution.destination.relationship? = some r) :
    ∃ (reached : Route) (s : Segment) (forced : Bool),
      c.relationship? reached.table.name s.name = some r ∧
        resolution = reached.endOn r s forced := by
  induction segments generalizing object route with
  | nil => cases resolves
  | cons segment rest ih =>
    by_cases final : rest = []
    · rw [final, followObjects_singleton_eq_ok_iff] at resolves
      rcases resolves with ⟨a, -, -, extended⟩ | ⟨-, named, -, ended⟩
      · obtain ⟨_, -, followed⟩ := extendRoute_eq_ok_iff.mp extended
        obtain ⟨reached, s, named, ended⟩ := ends_of_followTables followed last
        exact ⟨reached, s, true, named, ended⟩
      · obtain ⟨reached, -, hop, found, rfl⟩ := endOnObject_eq_ok_iff.mp ended
        rw [reached.relationship?_endOn] at last
        obtain rfl := Option.some.inj last
        exact ⟨reached, segment.rename named.lastHop, false, found, rfl⟩
    · obtain ⟨-, _, -, _, -, _, -, rest_resolves⟩ :=
        (followObjects_cons_eq_ok_iff final).mp resolves
      exact ih rest_resolves

end Endings

end Catalog

end ObjectRelational
