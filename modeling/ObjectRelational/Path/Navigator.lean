import ObjectRelational.Path.Memo
import ObjectRelational.Path.Route

set_option autoImplicit false
set_option relaxedAutoImplicit false

/-!
Navigators. A navigator follows paths over one catalog, registers the joins of those that resolve
in one table tree, and keeps what it found.
-/

namespace ObjectRelational

structure Navigator where
  catalog : Catalog
  tree : TableTree := {}
  /-- Where paths through objects lead. -/
  objectPaths : Memo := {}
  /-- Where paths through tables lead. -/
  tablePaths : Memo := {}

namespace Navigator

/-- What a destination is kept under. The parts are not marked off from each other, so that two
requests can share a key. -/
def memoKey (parent : Option String) (entity path : String) : String :=
  parent.getD "" ++ "." ++ entity ++ "." ++ path

/-- Registers a join that no path asked for. -/
def addJoin (n : Navigator) (j : TableJoin) : Bool × Navigator :=
  let (added, tree) := n.tree.addJoin j
  (added, { n with tree })

/-- Registers the joins of a path if it resolved. -/
def register (n : Navigator) : Except MappingError Resolution → Navigator
  | .ok resolution => { n with tree := n.tree.addJoins resolution.joins }
  | .error _ => n

/-- Follows a path through objects, continuing a parent path. -/
def objectPath (n : Navigator) (object : ObjectEntity) (path : String) (parent : Option String) :
    Except MappingError Destination × Navigator :=
  let key := memoKey parent object.name path
  match n.objectPaths.lookup? key with
  | some result => (result, { n with objectPaths := n.objectPaths.countHit })
  | none =>
    let resolved := n.catalog.resolveObjectPath object path (parent.getD "")
    let result := resolved.map (·.destination)
    (result, { n.register resolved with objectPaths := n.objectPaths.remember key result })

/-- Follows a path through tables, continuing a parent path. Whether a final relationship has to
be joined is no part of what the destination is kept under. -/
def tablePath (n : Navigator) (table : Table) (path : String) (parent : Option String)
    (forced : Bool) : Except MappingError Destination × Navigator :=
  let key := memoKey parent table.name path
  match n.tablePaths.lookup? key with
  | some result => (result, { n with tablePaths := n.tablePaths.countHit })
  | none =>
    let resolved := n.catalog.resolveTablePath table path (parent.getD "") forced
    let result := resolved.map (·.destination)
    (result, { n.register resolved with tablePaths := n.tablePaths.remember key result })

/-- The column that an id path names. -/
def idColumn (table : Table) (name path : String) : Except MappingError Column :=
  match table.column? name with
  | some column => .ok column
  | none => .error (.noSuchKey path)

/-- Whether a path ends on the mark for outer joins. -/
def endsOuter (path : String) : Bool := path.toList.getLast? == some Segment.outerMark

/-- An id path without a relationship: a column of the table behind the object. -/
def ownId (n : Navigator) (object : ObjectEntity) (name path : String) :
    Except MappingError Destination := do
  if name.isEmpty then throw .emptyIdPath
  let table ← n.catalog.tableFor object
  let column ← idColumn table name path
  return ⟨"", .id column⟩

/-- Follows a path of relationships that ends on a key column of their last table. That table is
joined in any case, before the column is looked for. -/
def idPath (n : Navigator) (object : ObjectEntity) (path : String) :
    Except MappingError Destination × Navigator :=
  let (front, name) := Text.cutLastDot path
  if front.isEmpty then (n.ownId object name path, n)
  else
    match n.objectPath object front none with
    | (.error e, n) => (.error e, n)
    | (.ok reached, n) =>
      match reached.relationship? with
      | none => (.error (.idPathWithoutRelationship path front), n)
      | some r =>
        let (_, n) := n.addJoin ⟨reached.finalPath, r, .ofOuter (endsOuter front)⟩
        ((idColumn r.target name path).map fun column => ⟨reached.finalPath, .id column⟩, n)

end Navigator

end ObjectRelational
