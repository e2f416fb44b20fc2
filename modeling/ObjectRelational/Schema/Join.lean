import ObjectRelational.MappingError

set_option autoImplicit false
set_option relaxedAutoImplicit false

/-!
Joins as they are declared: two tables, matched columns, and for each of the two directions a
name, if it is mapped, and whether it leads to many rows or to a dependent primary key.
-/

namespace ObjectRelational

/-- A direction of a join: `left` leads from the left table to the right one. -/
inductive Direction
  | left
  | right
  deriving Repr, DecidableEq

namespace Direction

def opposite : Direction → Direction
  | left => right
  | right => left

@[simp] theorem opposite_opposite (d : Direction) : d.opposite.opposite = d := by
  cases d <;> rfl

end Direction

/-- A value for the left side of a join and one for the right. -/
structure Sides (α : Type) where
  left : α
  right : α
  deriving Repr, DecidableEq

namespace Sides

variable {α β : Type}

/-- The value on the side where a direction starts. -/
def on (s : Sides α) : Direction → α
  | .left => s.left
  | .right => s.right

def swap (s : Sides α) : Sides α := ⟨s.right, s.left⟩

def map (f : α → β) (s : Sides α) : Sides β := ⟨f s.left, f s.right⟩

@[simp] theorem on_swap (s : Sides α) (d : Direction) : s.swap.on d = s.on d.opposite := by
  cases d <;> rfl

end Sides

/-- A column of the left table matched with a column of the right one. -/
abbrev ColumnPair := Sides String

/-- The matched columns: written as one pair or as several. -/
inductive JoinCondition
  | single (pair : ColumnPair)
  | multi (pairs : List ColumnPair)
  deriving Repr, DecidableEq

namespace JoinCondition

def pairs : JoinCondition → List ColumnPair
  | single pair => [pair]
  | multi pairs => pairs

def isMulti : JoinCondition → Bool
  | single _ => false
  | multi _ => true

end JoinCondition

/-- Which directions of a join lead to many rows. -/
inductive Cardinality
  | oneToOne
  /-- The left direction leads to many. -/
  | oneToMany
  /-- The right direction leads to many. -/
  | manyToOne
  | manyToMany
  deriving Repr, DecidableEq

namespace Cardinality

def ofFlags : (left right : Bool) → Cardinality
  | false, false => oneToOne
  | true, false => oneToMany
  | false, true => manyToOne
  | true, true => manyToMany

def isToMany : Cardinality → Direction → Bool
  | oneToOne, _ => false
  | oneToMany, d => d == .left
  | manyToOne, d => d == .right
  | manyToMany, _ => true

def name : Cardinality → String
  | oneToOne => "ONE_TO_ONE"
  | oneToMany => "ONE_TO_MANY"
  | manyToOne => "MANY_TO_ONE"
  | manyToMany => "MANY_TO_MANY"

end Cardinality

/-- Which direction of a join, if any, leads to a primary key that depends on the source row. At
most one can, since a dependent row has a single master. -/
inductive DependentKey
  | neither
  | left
  | right
  deriving Repr, DecidableEq

namespace DependentKey

def ofFlags : (left right : Bool) → Except MappingError DependentKey
  | false, false => .ok neither
  | true, false => .ok left
  | false, true => .ok right
  | true, true => .error .bothSidesDependent

/-- Whether a direction leads to the dependent key. -/
def isToDependent : DependentKey → Direction → Bool
  | neither, _ => false
  | left, d => d == .left
  | right, d => d == .right

/-- Whether a direction leads from the dependent row to its master. -/
def isToMaster (k : DependentKey) (d : Direction) : Bool := k.isToDependent d.opposite

def hasMaster : DependentKey → Bool
  | neither => false
  | left | right => true

def name : DependentKey → String
  | neither => "NONE"
  | left => "LEFT"
  | right => "RIGHT"

end DependentKey

/-- The declaration of a join. -/
structure Join where
  condition : JoinCondition
  /-- Names of the tables. -/
  entities : Sides String
  /-- Relationship names; a direction without one is not part of the mapping. -/
  names : Sides (Option String)
  cardinality : Cardinality
  dependentKey : DependentKey := .neither
  /-- Name of the data map that owns the join. -/
  dataMap : String := ""
  deriving Repr, DecidableEq

namespace Join

def isToMany (j : Join) (d : Direction) : Bool := j.cardinality.isToMany d

def isToDependent (j : Join) (d : Direction) : Bool := j.dependentKey.isToDependent d

def isToMaster (j : Join) (d : Direction) : Bool := j.dependentKey.isToMaster d

/-- The matched columns of the table where a direction starts. -/
def sourceColumns (j : Join) (d : Direction) : List String := j.condition.pairs.map (·.on d)

/-- The matched columns of the table where a direction ends. -/
def targetColumns (j : Join) (d : Direction) : List String := j.sourceColumns d.opposite

/-- The order in which joins are written: by left table, then, where both have one, by left
name. -/
def serializationOrder (a b : Join) : Ordering :=
  match compare a.entities.left b.entities.left, a.names.left, b.names.left with
  | .eq, some m, some n => compare m n
  | byEntity, _, _ => byEntity

def pairText (j : Join) (pair : ColumnPair) : String :=
  " (" ++ j.entities.left ++ "." ++ pair.left ++ ", " ++ j.entities.right ++ "." ++ pair.right ++
    ")"

/-- How a join shows in listings. -/
def text (j : Join) : String :=
  "DbJoin : " ++ j.cardinality.name ++ String.join (j.condition.pairs.map j.pairText)

end Join

end ObjectRelational
