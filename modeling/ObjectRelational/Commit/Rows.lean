import ObjectRelational.Catalog.Relationship
import ObjectRelational.Digraph.StrongComponents
import ObjectRelational.Digraph.TopologicalOrder

set_option autoImplicit false
set_option relaxedAutoImplicit false

/-!
The order of rows in a batch of one table. A row that refers to another row of the batch is
written after it. References to rows outside the batch and of a row to itself do not count.
-/

namespace ObjectRelational

/-- How rows are told apart and what they refer to. -/
structure RowReader (R K : Type) where
  /-- What identifies a row. -/
  key : R → K
  /-- What identifies the row that a row refers to through a relationship, if it does. -/
  reference : Relationship → R → Option K

namespace RowReader

variable {R K : Type} [DecidableEq K]

/-- The first row with the key of an earlier one, behind the position of that one. -/
def repeatedKey? (reader : RowReader R K) (rows : List R) : Option (Nat × Nat) :=
  let keys := rows.map reader.key
  keys.zipIdx.findSome? fun (key, second) =>
    ((keys.take second).idxOf? key).map fun first => (first, second)

/-- The positions of the rows of a batch that a row at a position refers to. -/
def masters (reader : RowReader R K) (relationships : List Relationship) (rows : List R)
    (row : R) (position : Nat) : List Nat :=
  relationships.filterMap fun r => do
    let key ← reader.reference r row
    let master ← (rows.map reader.key).idxOf? key
    if master = position then none else some master

/-- All references in a batch, from the row that is referred to. -/
def references (reader : RowReader R K) (relationships : List Relationship) (rows : List R) :
    List (Nat × Nat) :=
  rows.zipIdx.flatMap fun (row, position) =>
    (reader.masters relationships rows row position).map fun master => (master, position)

/-- The positions of a batch, with an arc from a row to each that refers to it. -/
def referenceGraph (reader : RowReader R K) (relationships : List Relationship) (rows : List R) :
    Digraph Nat Unit :=
  (reader.references relationships rows).foldl
    (fun g (master, position) => g.putArc master position ())
    (.ofVertices (List.range rows.length))

/-- The positions of a batch in the order in which its rows are written. -/
def order (reader : RowReader R K) (table : String) (relationships : List Relationship)
    (rows : List R) : Except MappingError (List Nat) :=
  match reader.repeatedKey? rows with
  | some (first, second) => .error (.repeatedRowKey table first second)
  | none =>
    let graph := reader.referenceGraph relationships rows
    match graph.components.find? fun rows => 1 < rows.length with
    | some cycle => .error (.rowsInCycle table cycle)
    | none => (graph.topologicalOrder Digraph.prefersEarlier).mapError (.unorderedRows table)

/-- The rows of a batch as they are written, or the other way round as they are deleted. Without
relationships to order them rows stay as they are. -/
def sort (reader : RowReader R K) (table : String) (relationships : List Relationship)
    (delete : Bool) (rows : List R) : Except MappingError (List R) :=
  if relationships.isEmpty || rows.length < 2 then .ok rows
  else do
    let order ← reader.order table relationships rows
    return (if delete then order.reverse else order).filterMap (rows[·]?)

end RowReader

end ObjectRelational
