import ObjectRelational.Json.Pretty
import ObjectRelational.Json.Record
import ObjectRelational.Schema.DataMap

set_option autoImplicit false
set_option relaxedAutoImplicit false

/-!
The JSON descriptor of a schema: what each declaration looks like as a value, and what is read
from one. A descriptor does not name the data map of a join; the map that is read owns its joins.
-/

namespace ObjectRelational

open Json

namespace Column

def toJson (c : Column) : Value :=
  .record [("name", .ofText c.name), ("primary_key", .bool c.primaryKey),
    ("mandatory", .bool c.mandatory)]

def ofJson? (v : Value) : Option Column := do
  match ← v.fields? ["name", "primary_key", "mandatory"] with
  | [name, primaryKey, mandatory] =>
    return {
      name := ← Value.required Value.text? name
      primaryKey := ← Value.optional false Value.bool? primaryKey
      mandatory := ← Value.optional false Value.bool? mandatory }
  | _ => none

end Column

namespace Table

def toJson (t : Table) : Value :=
  .record [("name", .ofText t.name), ("attributes", .array (t.columns.map Column.toJson))]

def ofJson? (v : Value) : Option Table := do
  match ← v.fields? ["name", "attributes"] with
  | [name, columns] =>
    return {
      name := ← Value.required Value.text? name
      columns := ← Value.optional [] (Value.list? Column.ofJson?) columns }
  | _ => none

end Table

namespace ObjectAttribute

def toJson (a : ObjectAttribute) : Value :=
  .record [("name", .ofText a.name), ("db_path", .ofText a.path)]

def ofJson? (v : Value) : Option ObjectAttribute := do
  match ← v.fields? ["name", "db_path"] with
  | [name, path] =>
    return { name := ← Value.required Value.text? name, path := ← Value.required Value.text? path }
  | _ => none

end ObjectAttribute

namespace ObjectRelationship

def toJson (r : ObjectRelationship) : Value :=
  .record [("name", .ofText r.name), ("target", .ofText r.target), ("db_path", .ofText r.path)]

def ofJson? (v : Value) : Option ObjectRelationship := do
  match ← v.fields? ["name", "target", "db_path"] with
  | [name, target, path] =>
    return {
      name := ← Value.required Value.text? name
      target := ← Value.required Value.text? target
      path := ← Value.required Value.text? path }
  | _ => none

end ObjectRelationship

namespace ObjectEntity

def toJson (e : ObjectEntity) : Value :=
  .record [("name", .ofText e.name), ("db_entity", .ofText e.table),
    ("attributes", .array (e.attributes.map ObjectAttribute.toJson)),
    ("relationships", .array (e.relationships.map ObjectRelationship.toJson))]

def ofJson? (v : Value) : Option ObjectEntity := do
  match ← v.fields? ["name", "db_entity", "attributes", "relationships"] with
  | [name, table, attributes, relationships] =>
    return {
      name := ← Value.required Value.text? name
      table := ← Value.required Value.text? table
      attributes := ← Value.optional [] (Value.list? ObjectAttribute.ofJson?) attributes
      relationships := ← Value.optional [] (Value.list? ObjectRelationship.ofJson?) relationships }
  | _ => none

end ObjectEntity

namespace Sides

/-- A pair of columns. -/
def toJson (pair : ColumnPair) : Value :=
  .record [("left", .ofText pair.left), ("right", .ofText pair.right)]

def ofJson? (v : Value) : Option ColumnPair := do
  match ← v.fields? ["left", "right"] with
  | [left, right] =>
    return ⟨← Value.required Value.text? left, ← Value.required Value.text? right⟩
  | _ => none

/-- Two values read alike, the left one first. -/
def two? {α : Type} (read : Value → Option α) (v : Value) : Option (Sides α) :=
  (v.two? read).map fun (left, right) => ⟨left, right⟩

end Sides

namespace JoinCondition

def toJson : JoinCondition → Value
  | single pair => .record [("single", pair.toJson)]
  | multi pairs => .record [("multi", .array (pairs.map Sides.toJson))]

def ofJson? (v : Value) : Option JoinCondition := do
  match ← v.onlyMember? with
  | ("single", pair) => return .single (← Sides.ofJson? pair)
  | ("multi", pairs) => return .multi (← pairs.list? Sides.ofJson?)
  | _ => none

end JoinCondition

namespace Cardinality

/-- How a cardinality is written in a descriptor. -/
def tag : Cardinality → String
  | oneToOne => "one_to_one"
  | oneToMany => "one_to_many"
  | manyToOne => "many_to_one"
  | manyToMany => "many_to_many"

def ofTag? : String → Option Cardinality
  | "one_to_one" => some oneToOne
  | "one_to_many" => some oneToMany
  | "many_to_one" => some manyToOne
  | "many_to_many" => some manyToMany
  | _ => none

def ofJson? (v : Value) : Option Cardinality := v.caseName?.bind ofTag?

end Cardinality

namespace DependentKey

/-- How the dependent side is written in a descriptor. -/
def tag : DependentKey → String
  | neither => "none"
  | left => "left"
  | right => "right"

def ofTag? : String → Option DependentKey
  | "none" => some neither
  | "left" => some left
  | "right" => some right
  | _ => none

def ofJson? (v : Value) : Option DependentKey := v.caseName?.bind ofTag?

end DependentKey

namespace Join

/-- A relationship name, or `null` for a direction that is not mapped. -/
def nameJson : Option String → Value
  | none => .null
  | some name => .ofText name

def toJson (j : Join) : Value :=
  .record [("condition", j.condition.toJson),
    ("entities", .array [.ofText j.entities.left, .ofText j.entities.right]),
    ("names", .array [nameJson j.names.left, nameJson j.names.right]),
    ("to_many", .ofText j.cardinality.tag), ("to_dependent_pk", .ofText j.dependentKey.tag)]

def ofJson? (v : Value) : Option Join := do
  match ← v.fields? ["condition", "entities", "names", "to_many", "to_dependent_pk"] with
  | [condition, entities, names, cardinality, dependentKey] =>
    return {
      condition := ← Value.required JoinCondition.ofJson? condition
      entities := ← Value.required (Sides.two? Value.text?) entities
      names := ← Value.required (Sides.two? Value.nullableText?) names
      cardinality := ← Value.required Cardinality.ofJson? cardinality
      dependentKey := ← Value.optional .neither DependentKey.ofJson? dependentKey }
  | _ => none

end Join

namespace DataMap

def toJson (m : DataMap) : Value :=
  .record [("name", .ofText m.name), ("db_entities", .array (m.tables.map Table.toJson)),
    ("obj_entities", .array (m.objects.map ObjectEntity.toJson)),
    ("joins", .array (m.orderedJoins.map Join.toJson))]

def ofJson? (v : Value) : Option DataMap := do
  match ← v.fields? ["name", "db_entities", "obj_entities", "joins"] with
  | [name, tables, objects, joins] =>
    let name ← Value.required Value.text? name
    let tables ← Value.optional [] (Value.list? Table.ofJson?) tables
    let objects ← Value.optional [] (Value.list? ObjectEntity.ofJson?) objects
    let joins ← Value.optional [] (Value.list? Join.ofJson?) joins
    let map : DataMap := { name, tables, objects }
    return { map with joins := joins.map map.own }
  | _ => none

end DataMap

/-- Reads a document, which fails as one cause whatever is wrong with it. -/
def readDocument {α : Type} (ofJson? : Value → Option α) (document : String) :
    Except MappingError α :=
  match (Value.parse? document).bind ofJson? with
  | some a => .ok a
  | none => .error .malformedDescriptor

def Table.read : String → Except MappingError Table := readDocument Table.ofJson?

def Column.read : String → Except MappingError Column := readDocument Column.ofJson?

def ObjectEntity.read : String → Except MappingError ObjectEntity :=
  readDocument ObjectEntity.ofJson?

def Join.read : String → Except MappingError Join := readDocument Join.ofJson?

/-- Reads the descriptor of a data map. -/
def DataMap.read : String → Except MappingError DataMap := readDocument DataMap.ofJson?

/-- The descriptor of a data map. -/
def DataMap.render (m : DataMap) : String := m.toJson.pretty

end ObjectRelational
