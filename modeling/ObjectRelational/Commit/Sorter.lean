import ObjectRelational.Commit.Index
import ObjectRelational.Commit.Rows

set_option autoImplicit false
set_option relaxedAutoImplicit false

/-!
Sorters: a commit policy bound to a catalog, with the commit order of that catalog once it was
asked for. Binding a catalog drops the order of the one before.
-/

namespace ObjectRelational

/-- A commit order as it was built; the serial number tells it from others that are equal. -/
structure Snapshot where
  serial : Nat
  index : CommitIndex
  deriving Repr, DecidableEq

structure Sorter where
  policy : CommitPolicy := {}
  catalog : Option Catalog := none
  /-- The commit order in use. -/
  snapshot : Option Snapshot := none
  /-- How many commit orders were built. -/
  built : Nat := 0
  deriving Repr, DecidableEq

/-- A collection behind an attempt to sort it: sorted, or as it was beside the reason. -/
structure SortAttempt (α : Type) where
  items : List α
  fault : Option MappingError := none
  deriving Repr, DecidableEq

/-- What is left of a collection by a way to sort it that may fail. -/
def SortAttempt.of {α : Type} (items : List α) : Except MappingError (List α) → SortAttempt α
  | .ok sorted => { items := sorted }
  | .error fault => { items, fault := some fault }

namespace Sorter

variable {α : Type}

/-- Binds a catalog, and drops the commit order in use. -/
def bind (s : Sorter) (catalog : Catalog) : Sorter :=
  { s with catalog := some catalog, snapshot := none }

/-- A sorter that is bound to a catalog. -/
def ofCatalog (catalog : Catalog) (policy : CommitPolicy) : Sorter := bind { policy } catalog

/-- Drops the commit order in use. -/
def invalidate (s : Sorter) : Sorter := { s with snapshot := none }

def isIndexed (s : Sorter) : Bool := s.snapshot.isSome

/-- Builds the commit order anew. -/
def reindex (s : Sorter) : Except MappingError Snapshot × Sorter :=
  match s.catalog with
  | none => (.error .noCatalog, s)
  | some catalog =>
    let snapshot := ⟨s.built, .build catalog s.policy⟩
    (.ok snapshot, { s with snapshot := some snapshot, built := s.built + 1 })

/-- The commit order in use, built if there is none. -/
def index (s : Sorter) : Except MappingError Snapshot × Sorter :=
  match s.snapshot with
  | some snapshot => (.ok snapshot, s)
  | none => s.reindex

/-- What a commit order tells, built if there is none. -/
def withIndex {β : Type} (s : Sorter) (f : CommitIndex → Except MappingError β) :
    Except MappingError β × Sorter :=
  let (snapshot, s) := s.index
  (snapshot.bind fun snapshot => f snapshot.index, s)

/-- The rank of a table that has one. -/
def requireRank (i : CommitIndex) (table : String) : Except MappingError Nat :=
  match i.rank? table with
  | some rank => .ok rank
  | none => .error (.unindexedTable table)

/-- The rank of a table. -/
def rank (s : Sorter) (table : String) : Except MappingError Nat × Sorter :=
  s.withIndex fun i => requireRank i table

/-- Whether an item with a rank goes in front of another. -/
def precedes (delete : Bool) (a b : α × Nat) : Bool :=
  if delete then b.2 < a.2 else a.2 < b.2

/-- Items by the ranks of their tables, or the other way round for deletion. Items of one rank
keep their order either way. -/
def sortRanked (i : CommitIndex) (tableOf : α → String) (delete : Bool) (items : List α) :
    Except MappingError (List α) := do
  let ranked ← items.mapM fun item => return (item, ← requireRank i (tableOf item))
  return (Order.stableSort (precedes delete) ranked).map (·.1)

/-- Sorts items that belong to tables. -/
def sortBy (s : Sorter) (tableOf : α → String) (delete : Bool) (items : List α) :
    SortAttempt α × Sorter :=
  let (sorted, s) := s.withIndex fun i => sortRanked i tableOf delete items
  (.of items sorted, s)

/-- Sorts tables. -/
def sortTables (s : Sorter) (delete : Bool) (tables : List Table) : SortAttempt Table × Sorter :=
  s.sortBy (·.name) delete tables

/-- Sorts rows of one table. -/
def sortRows {R K : Type} [DecidableEq K] (s : Sorter) (reader : RowReader R K) (table : String)
    (delete : Bool) (rows : List R) : SortAttempt R × Sorter :=
  let (sorted, s) := s.withIndex fun i => do
    let _ ← requireRank i table
    reader.sort table (i.reflexiveOn table) delete rows
  (.of rows sorted, s)

end Sorter

end ObjectRelational
