import ObjectRelational.Path.Segment
import ObjectRelational.Path.TableTree

set_option autoImplicit false
set_option relaxedAutoImplicit false

/-!
Where a path leads: the columns that it ends on, and the joins that reach them.
-/

namespace ObjectRelational

/-- What a path ends on. -/
inductive Terminal
  /-- A column of the table in front of the last component. -/
  | attribute (column : Column)
  /-- A key column of the table at the end of the path. -/
  | id (column : Column)
  /-- A relationship with columns of the table at `columnPath`: the key of the joined table, or
  the columns that refer to it when it is not joined. -/
  | relationship (relationship : Relationship) (joined : Bool) (columnPath : String)
      (columns : List Column)
  deriving Repr, DecidableEq

structure Destination where
  /-- The path through the tables, behind the path it was asked to start with. -/
  finalPath : String
  terminal : Terminal
  deriving Repr, DecidableEq

namespace Destination

/-- The relationship that the path ends on. -/
def relationship? (d : Destination) : Option Relationship :=
  match d.terminal with
  | .relationship r _ _ _ => some r
  | _ => none

/-- Whether the path ends on a relationship that is joined. -/
def isJoined (d : Destination) : Bool :=
  match d.terminal with
  | .relationship _ joined _ _ => joined
  | _ => false

def columns (d : Destination) : List Column :=
  match d.terminal with
  | .attribute column | .id column => [column]
  | .relationship _ _ _ columns => columns

/-- The path of each column. -/
def columnPaths (d : Destination) : List String :=
  match d.terminal with
  | .attribute _ => [d.finalPath]
  | .id column => [Path.append d.finalPath column.name]
  | .relationship _ _ columnPath columns => columns.map fun c => Path.append columnPath c.name

end Destination

/-- A destination with the joins that it needs, in the order in which they are reached. -/
structure Resolution where
  destination : Destination
  joins : List TableJoin
  deriving Repr, DecidableEq

end ObjectRelational
