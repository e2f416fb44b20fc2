import ObjectRelational.Order.StableSort
import ObjectRelational.Schema.Entity
import ObjectRelational.Schema.Join

set_option autoImplicit false
set_option relaxedAutoImplicit false

/-!
Data maps: named groups of tables, object entities and joins. A join can be put together from loose
parts: every part has to be given, two tables and two names, and at least one pair of columns.
-/

namespace ObjectRelational

/-- The parts of a join given so far. -/
structure JoinDraft where
  condition : Option JoinCondition := none
  entities : Option (List String) := none
  names : Option (List (Option String)) := none
  dependentKey : Option DependentKey := none
  cardinality : Option Cardinality := none
  dataMap : Option String := none
  deriving Repr, DecidableEq

namespace JoinDraft

def missing {α : Type} (part : Option α) (name : String) : List String :=
  if part.isSome then [] else [name]

/-- The names of the parts not given. -/
def missingParts (d : JoinDraft) : List String :=
  missing d.condition "condition" ++ missing d.entities "entities" ++ missing d.names "names" ++
    missing d.dependentKey "to_dependent_pk" ++ missing d.cardinality "to_many" ++
    missing d.dataMap "data_map"

/-- The join of complete and well-formed parts. -/
def build (d : JoinDraft) : Except MappingError Join :=
  match d with
  | ⟨some condition, some entities, some names, some dependentKey, some cardinality,
      some dataMap⟩ =>
    match entities with
    | [left, right] =>
      match names with
      | [leftName, rightName] =>
        if condition.pairs.isEmpty then .error (.joinWithoutPairs left right)
        else
          .ok
            { condition
              entities := ⟨left, right⟩
              names := ⟨leftName, rightName⟩
              cardinality
              dependentKey
              dataMap }
      | _ => .error (.joinNameCount names.length)
    | _ => .error (.joinEntityCount entities.length)
  | _ => .error (.missingJoinParts d.missingParts)

end JoinDraft

/-- A named group of declarations. -/
structure DataMap where
  name : String
  tables : List Table := []
  objects : List ObjectEntity := []
  joins : List Join := []
  deriving Repr, DecidableEq

namespace DataMap

def addTable (m : DataMap) (table : Table) : DataMap := { m with tables := m.tables ++ [table] }

def addObject (m : DataMap) (object : ObjectEntity) : DataMap :=
  { m with objects := m.objects ++ [object] }

/-- A join as a map owns it. -/
def own (m : DataMap) (join : Join) : Join := { join with dataMap := m.name }

/-- Adds a join, which the map then owns. -/
def addJoin (m : DataMap) (join : Join) : DataMap :=
  { m with joins := m.joins ++ [m.own join] }

/-- A draft of a join that the map will own. -/
def draftJoin (m : DataMap) : JoinDraft := { dataMap := some m.name }

/-- The joins in the order in which they are written. -/
def orderedJoins (m : DataMap) : List Join :=
  Order.stableSort (fun a b => (a.serializationOrder b).isLT) m.joins

end DataMap

end ObjectRelational
