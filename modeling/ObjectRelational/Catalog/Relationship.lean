import ObjectRelational.Schema.Entity
import ObjectRelational.Schema.Join

set_option autoImplicit false
set_option relaxedAutoImplicit false

/-!
Joins resolved against the tables of a schema, and the relationships that navigate them. The
directions of joins that the mapping leaves unnamed get synthetic names.
-/

namespace ObjectRelational

/-- A supply of names that count up behind a stem. The count has 64 bits and wraps. -/
structure NameSupply where
  stem : String := "runtimeRelationship"
  /-- How many names were drawn. -/
  issued : UInt64 := 0
  deriving Repr, DecidableEq

namespace NameSupply

/-- The name that is drawn next, and the supply behind it. -/
def draw (s : NameSupply) : String × NameSupply :=
  (s.stem ++ toString s.issued, { s with issued := s.issued + 1 })

/-- Starts counting again. -/
def reset (s : NameSupply) : NameSupply := { s with issued := 0 }

end NameSupply

/-- A join whose tables and columns were found. -/
structure ResolvedJoin where
  /-- Number among the joins of a schema, which tells joins of one declaration apart. -/
  number : Nat
  declaration : Join
  tables : Sides Table
  /-- The declared names, and synthetic ones in their places. -/
  names : Sides String
  /-- The matched columns of each table, pair by pair. -/
  columns : Sides (List Column)
  deriving Repr, DecidableEq

/-- Whether a direction has no place in the mapping, and so a synthetic name. -/
def ResolvedJoin.isRuntime (j : ResolvedJoin) (d : Direction) : Bool :=
  (j.declaration.names.on d).isNone

namespace Join

/-- The name of a direction, drawn from the supply if it has none. -/
def nameFrom (supply : NameSupply) : Option String → String × NameSupply
  | some name => (name, supply)
  | none => supply.draw

/-- The table of a name among those of a schema. -/
def findTable (tables : List Table) (name : String) : Option Table :=
  tables.find? (·.name == name)

/-- A table that a join mentions. -/
def resolveTable (j : Join) (tables : List Table) (d : Direction) : Except MappingError Table :=
  match findTable tables (j.entities.on d) with
  | some table => .ok table
  | none =>
    .error (.unknownJoinTable j.entities.left j.entities.right (j.entities.on d))

def resolveColumn (table : Table) (name : String) : Except MappingError Column :=
  match table.column? name with
  | some column => .ok column
  | none => .error (.unknownColumn name table.name)

/-- The columns of a pair, the left one first. -/
def resolvePair (tables : Sides Table) (pair : ColumnPair) :
    Except MappingError (Sides Column) := do
  let left ← resolveColumn tables.left pair.left
  let right ← resolveColumn tables.right pair.right
  return ⟨left, right⟩

/-- The tables and columns of a join. -/
def resolveParts (j : Join) (tables : List Table) :
    Except MappingError (Sides Table × List (Sides Column)) := do
  if j.condition.pairs.isEmpty then
    throw (.joinWithoutPairs j.entities.left j.entities.right)
  let left ← j.resolveTable tables .left
  let right ← j.resolveTable tables .right
  let pairs ← j.condition.pairs.mapM (resolvePair ⟨left, right⟩)
  return (⟨left, right⟩, pairs)

/-- Resolves a join as the one of a number. Names are drawn only when all else was found, the left
one first. -/
def resolve (j : Join) (tables : List Table) (number : Nat) (supply : NameSupply) :
    Except MappingError ResolvedJoin × NameSupply :=
  match j.resolveParts tables with
  | .error e => (.error e, supply)
  | .ok (tables, pairs) =>
    let (left, supply) := nameFrom supply j.names.left
    let (right, supply) := nameFrom supply j.names.right
    (.ok
      { number
        declaration := j
        tables
        names := ⟨left, right⟩
        columns := ⟨pairs.map (·.left), pairs.map (·.right)⟩ },
      supply)

end Join

/-- A resolved join seen in one of its directions. -/
structure Relationship where
  join : ResolvedJoin
  direction : Direction
  deriving Repr, DecidableEq

/-- The matched columns of a relationship, in the shape of the declared condition. -/
inductive MatchedColumns
  | single (source target : Column)
  | multi (source target : List Column)
  deriving Repr, DecidableEq

namespace Relationship

def name (r : Relationship) : String := r.join.names.on r.direction

def dataMap (r : Relationship) : String := r.join.declaration.dataMap

/-- The same join in the other direction. -/
def reverse (r : Relationship) : Relationship := ⟨r.join, r.direction.opposite⟩

def source (r : Relationship) : Table := r.join.tables.on r.direction

def target (r : Relationship) : Table := r.reverse.source

def isToMany (r : Relationship) : Bool := r.join.declaration.isToMany r.direction

def isToDependent (r : Relationship) : Bool := r.join.declaration.isToDependent r.direction

/-- Whether the relationship leads from the dependent row to its master. -/
def isToMaster (r : Relationship) : Bool := r.join.declaration.isToMaster r.direction

/-- Whether the direction is navigable without being part of the mapping. -/
def isRuntime (r : Relationship) : Bool := r.join.isRuntime r.direction

/-- Whether the relationship leads from a table to itself. -/
def isReflexive (r : Relationship) : Bool := r.source.name == r.target.name

def sourceColumns (r : Relationship) : List Column := r.join.columns.on r.direction

def targetColumns (r : Relationship) : List Column := r.reverse.sourceColumns

/-- The matched columns pair by pair, the source column first. -/
def columnPairs (r : Relationship) : List (Column × Column) :=
  r.sourceColumns.zip r.targetColumns

/-- Whether every target column belongs to the primary key. -/
def isToKey (r : Relationship) : Bool := r.targetColumns.all (·.primaryKey)

def matchedColumns (r : Relationship) : MatchedColumns :=
  match r.join.declaration.condition, r.sourceColumns, r.targetColumns with
  | .single _, source :: _, target :: _ => .single source target
  | _, source, target => .multi source target

/-- Whether a column, with its flags, is one of the matched source columns. -/
def hasSourceColumn (r : Relationship) (column : Column) : Bool :=
  r.sourceColumns.contains column

/-- How a relationship shows in listings. -/
def text (r : Relationship) : String := r.source.name ++ "." ++ r.name

@[simp] theorem reverse_reverse (r : Relationship) : r.reverse.reverse = r := by
  simp [reverse]

end Relationship

end ObjectRelational
