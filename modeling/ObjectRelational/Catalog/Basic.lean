import ObjectRelational.Catalog.Relationship
import ObjectRelational.Schema.DataMap

set_option autoImplicit false
set_option relaxedAutoImplicit false

/-!
Catalogs: the declarations of one or more data maps with every name resolved. Tables, objects and
joins keep their order of declaration across the maps, and the mapped directions of the joins are
registered on the tables where they start.
-/

namespace ObjectRelational

/-- Relationships listed under the names of the tables where they start. -/
abbrev Registry := List (String × List Relationship)

namespace Registry

/-- The relationships under a name. -/
def under (registry : Registry) (table : String) : List Relationship :=
  ((registry.find? (·.1 == table)).map (·.2)).getD []

/-- Lists a relationship behind the others under a name. -/
def insert (registry : Registry) (table : String) (r : Relationship) : Registry :=
  match registry with
  | [] => [(table, [r])]
  | (t, rs) :: rest =>
    if t = table then (t, rs ++ [r]) :: rest else (t, rs) :: insert rest table r

/-- The relationship becomes the last under its name. -/
theorem under_insert_self (registry : Registry) (table : String) (r : Relationship) :
    (registry.insert table r).under table = registry.under table ++ [r] := by
  induction registry with
  | nil => simp [insert, under]
  | cons entry rest ih =>
    obtain ⟨t, rs⟩ := entry
    by_cases same : t = table
    · simp [insert, under, same]
    · simpa [insert, under, same] using ih

/-- Other names keep what they list. -/
theorem under_insert_of_ne (registry : Registry) {table other : String} (r : Relationship)
    (differs : other ≠ table) : (registry.insert table r).under other = registry.under other := by
  induction registry with
  | nil => simp [insert, under, differs.symm]
  | cons entry rest ih =>
    obtain ⟨t, rs⟩ := entry
    by_cases same : t = table
    · subst same
      simp [insert, under, differs.symm]
    · by_cases found : t = other
      · subst found
        simp [insert, under, same]
      · simpa [insert, under, same, found] using ih

/-- Registers a relationship on its source table, which has no two of a name. -/
def register (registry : Registry) (r : Relationship) : Except MappingError Registry :=
  if (registry.under r.source.name).any (·.name == r.name) then
    .error (.duplicateRelationship r.name r.source.name)
  else .ok (registry.insert r.source.name r)

end Registry

/-- A resolved schema. -/
structure Catalog where
  tables : List Table
  objects : List ObjectEntity
  joins : List ResolvedJoin
  registry : Registry
  deriving Repr, DecidableEq

namespace Catalog

/-- The two directions of a join, the left one first. -/
def sidesOf (j : ResolvedJoin) : List Relationship := [⟨j, .left⟩, ⟨j, .right⟩]

/-- The tables of the maps, which all differ in name. -/
def gatherTables (maps : List DataMap) : Except MappingError (List Table) :=
  (maps.flatMap fun m => m.tables.map (m.name, ·)).foldlM (fun tables (map, table) =>
    if tables.any (·.name == table.name) then .error (.duplicateTable table.name map)
    else .ok (tables ++ [table])) []

/-- The object entities of the maps, which all differ in name and have a table. -/
def gatherObjects (maps : List DataMap) (tables : List Table) :
    Except MappingError (List ObjectEntity) :=
  (maps.flatMap fun m => m.objects.map (m.name, ·)).foldlM (fun objects (map, object) =>
    if objects.any (·.name == object.name) then .error (.duplicateObject object.name map)
    else if (Join.findTable tables object.table).isNone then
      .error (.unknownBackingTable object.name object.table)
    else .ok (objects ++ [object])) []

/-- Refuses a relationship to an object that is not declared. -/
def checkTargets (objects : List ObjectEntity) : Except MappingError Unit :=
  (objects.flatMap fun o => o.relationships.map (o.name, ·)).forM fun (object, r) =>
    if objects.any (·.name == r.target) then .ok ()
    else .error (.unknownTargetObject object r.name r.target)

/-- Resolves joins in order, numbering them from `number`. Names drawn before a failure stay
drawn. -/
def resolveJoins (tables : List Table) : Nat → List Join → NameSupply →
    Except MappingError (List ResolvedJoin) × NameSupply
  | _, [], supply => (.ok [], supply)
  | number, j :: joins, supply =>
    match j.resolve tables number supply with
    | (.error e, supply) => (.error e, supply)
    | (.ok resolved, supply) =>
      match resolveJoins tables (number + 1) joins supply with
      | (.error e, supply) => (.error e, supply)
      | (.ok rest, supply) => (.ok (resolved :: rest), supply)

/-- Registers the mapped directions of the joins. -/
def registerSides (joins : List ResolvedJoin) : Except MappingError Registry :=
  ((joins.flatMap sidesOf).filter fun r => !r.isRuntime).foldlM Registry.register []

/-- What is found before any join is looked at. -/
def compileEntities (maps : List DataMap) :
    Except MappingError (List Table × List ObjectEntity) := do
  let tables ← gatherTables maps
  let objects ← gatherObjects maps tables
  checkTargets objects
  return (tables, objects)

/-- Resolves the declarations of data maps. -/
def compile (maps : List DataMap) (supply : NameSupply) :
    Except MappingError Catalog × NameSupply :=
  match compileEntities maps with
  | .error e => (.error e, supply)
  | .ok (tables, objects) =>
    match resolveJoins tables 0 (maps.flatMap (·.joins)) supply with
    | (.error e, supply) => (.error e, supply)
    | (.ok joins, supply) =>
      match registerSides joins with
      | .error e => (.error e, supply)
      | .ok registry => (.ok { tables, objects, joins, registry }, supply)

/-- Resolves data maps with a name supply of their own, and leaves the supply behind. -/
def compileFresh (maps : List DataMap) : Except MappingError Catalog × NameSupply :=
  compile maps {}

def table? (c : Catalog) (name : String) : Option Table := Join.findTable c.tables name

def requireTable (c : Catalog) (name : String) : Except MappingError Table :=
  match c.table? name with
  | some table => .ok table
  | none => .error (.unknownTable name)

/-- Where a table stands in the order of declaration. -/
def tablePosition? (c : Catalog) (name : String) : Option Nat :=
  c.tables.findIdx? (·.name == name)

def object? (c : Catalog) (name : String) : Option ObjectEntity :=
  c.objects.find? (·.name == name)

def requireObject (c : Catalog) (name : String) : Except MappingError ObjectEntity :=
  match c.object? name with
  | some object => .ok object
  | none => .error (.unknownObject name)

/-- The table behind an object. -/
def tableFor (c : Catalog) (object : ObjectEntity) : Except MappingError Table :=
  c.requireTable object.table

/-- The mapped relationships that start at a table. -/
def relationships (c : Catalog) (table : String) : List Relationship := c.registry.under table

/-- The mapped relationship of a name that starts at a table. -/
def relationship? (c : Catalog) (table name : String) : Option Relationship :=
  (c.relationships table).find? (·.name == name)

/-- All directions of all joins, mapped or not. -/
def sides (c : Catalog) : List Relationship := c.joins.flatMap sidesOf

/-- The first of all directions with a source table and a name. -/
def side? (c : Catalog) (table name : String) : Option Relationship :=
  c.sides.find? fun r => r.source.name == table && r.name == name

end Catalog

end ObjectRelational
