import ObjectRelational.Catalog.Basic
import ObjectRelational.Path.Destination

set_option autoImplicit false
set_option relaxedAutoImplicit false

/-!
Routes through the tables of a catalog. A path through tables names a relationship of the table
reached so far in each component and may end on a column. A path through objects names
relationships of objects, each of which stands for a route of its own, and may end on an
attribute, which stands for a path through tables.
-/

namespace ObjectRelational

/-- How far a path has come. -/
structure Route where
  /-- The table that is reached. -/
  table : Table
  /-- The path to it. -/
  path : String
  /-- The joins on the way. -/
  joins : List TableJoin := []
  deriving Repr, DecidableEq

namespace Route

/-- Crosses a relationship as a segment says. -/
def cross (route : Route) (r : Relationship) (segment : Segment) : Route :=
  let path := Path.append route.path segment.text
  { table := r.target
    path
    joins := route.joins ++ [⟨path, r, .ofOuter segment.outer⟩] }

/-- Whether a path that ends on a relationship needs its target table. It does not if the columns
that refer to the target hold its key. -/
def needsJoin (r : Relationship) (forced : Bool) : Bool := forced || r.isToMany || !r.isToKey

/-- Ends on a relationship. -/
def endOn (route : Route) (r : Relationship) (segment : Segment) (forced : Bool) : Resolution :=
  if needsJoin r forced then
    let reached := route.cross r segment
    { destination :=
        ⟨reached.path, .relationship r true reached.path r.target.keyColumns⟩
      joins := reached.joins }
  else
    { destination :=
        ⟨Path.append route.path segment.text,
          .relationship r false route.path r.sourceColumns⟩
      joins := route.joins }

/-- Ends on a column of the table that is reached. -/
def endOnColumn (route : Route) (column : Column) (name : String) : Resolution where
  destination := ⟨Path.append route.path name, .attribute column⟩
  joins := route.joins

end Route

namespace Catalog

/-- The relationship that a component of a path names. -/
def relationshipOn (c : Catalog) (table : Table) (name path : String) :
    Except MappingError Relationship :=
  match c.relationship? table.name name with
  | some r => .ok r
  | none => .error (.unresolvedComponent name path table.name)

/-- Follows a path through tables. A final relationship is joined where it has to be, or if that
is asked for. -/
def followTables (c : Catalog) (path : String) (forced : Bool) (route : Route) :
    List Segment → Except MappingError Resolution
  | [] => .error .emptyPath
  | [last] =>
    match route.table.column? last.name with
    | some column =>
      if last.hasMarkers then .error (.markersOnAttribute last.name path)
      else .ok (route.endOnColumn column last.name)
    | none => do
      let r ← c.relationshipOn route.table last.name path
      return route.endOn r last forced
  | segment :: next :: rest =>
    if route.table.hasColumn segment.name then .error (.attributeNotLast segment.name path)
    else do
      let r ← c.relationshipOn route.table segment.name path
      c.followTables path forced (route.cross r segment) (next :: rest)

/-- Follows a path through tables from where a route has come to. -/
def extendRoute (c : Catalog) (route : Route) (path : String) (forced : Bool) :
    Except MappingError Resolution := do
  let segments ← Path.segments path
  c.followTables path forced route segments

/-- Crosses the named relationships one after the other, all with the marks of one segment. -/
def crossAll (c : Catalog) (path : String) (segment : Segment) (route : Route) :
    List String → Except MappingError Route
  | [] => .ok route
  | hop :: hops => do
    let r ← c.relationshipOn route.table hop path
    c.crossAll path segment (route.cross r (segment.rename hop)) hops

/-- Crosses the relationships that a relationship of an object stands for. -/
def crossObject (c : Catalog) (route : Route) (r : ObjectRelationship) (segment : Segment) :
    Except MappingError Route :=
  c.crossAll r.path segment route r.components

/-- Ends on a relationship of an object: all that it stands for is crossed but the last
relationship. -/
def endOnObject (c : Catalog) (route : Route) (r : ObjectRelationship) (segment : Segment) :
    Except MappingError Resolution := do
  let (front, last) := Text.cutLastDot r.path
  let route ← if front.isEmpty then .ok route
    else c.crossAll r.path segment route (Text.dotted front)
  let hop ← c.relationshipOn route.table last r.path
  return route.endOn hop (segment.rename last) false

/-- The relationship of an object that a component of a path names. -/
def objectRelationshipOn (object : ObjectEntity) (name path : String) :
    Except MappingError ObjectRelationship :=
  match object.relationship? name with
  | some r => .ok r
  | none => .error (.unresolvedComponent name path object.name)

/-- Follows a path through objects. -/
def followObjects (c : Catalog) (path : String) (object : ObjectEntity) (route : Route) :
    List Segment → Except MappingError Resolution
  | [] => .error .emptyPath
  | [last] =>
    match object.attribute? last.name with
    | some a =>
      if last.hasMarkers then .error (.markersOnAttribute last.name path)
      else c.extendRoute route a.path true
    | none => do
      let r ← objectRelationshipOn object last.name path
      c.endOnObject route r last
  | segment :: next :: rest =>
    if (object.attribute? segment.name).isSome then
      .error (.attributeNotLast segment.name path)
    else do
      let r ← objectRelationshipOn object segment.name path
      let route ← c.crossObject route r segment
      let target ← c.requireObject r.target
      c.followObjects path target route (next :: rest)

/-- Resolves a path through tables that starts at a table and continues a base path. -/
def resolveTablePath (c : Catalog) (table : Table) (path base : String) (forced : Bool) :
    Except MappingError Resolution :=
  c.extendRoute { table, path := base } path forced

/-- Resolves a path through objects that starts at an object and continues a base path. -/
def resolveObjectPath (c : Catalog) (object : ObjectEntity) (path base : String) :
    Except MappingError Resolution := do
  let segments ← Path.segments path
  let table ← c.tableFor object
  c.followObjects path object { table, path := base } segments

end Catalog

end ObjectRelational
