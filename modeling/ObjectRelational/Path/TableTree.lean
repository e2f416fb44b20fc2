import ObjectRelational.Catalog.Relationship

set_option autoImplicit false
set_option relaxedAutoImplicit false

/-!
Table trees: the tables that a query joins, one for each path from its root. A path that was
registered once keeps its alias, its relationship and its type of join.
-/

namespace ObjectRelational

/-- How a joined table is attached. -/
inductive JoinType
  | inner
  /-- Rows without a partner are kept. -/
  | leftOuter
  deriving Repr, DecidableEq

def JoinType.ofOuter (outer : Bool) : JoinType := if outer then leftOuter else inner

/-- A table to be joined at a path. -/
structure TableJoin where
  path : String
  relationship : Relationship
  joinType : JoinType
  deriving Repr, DecidableEq

/-- A table of the tree. -/
structure TableNode where
  path : String
  aliasName : String
  /-- What joins the table; nothing at the root. -/
  relationship : Option Relationship
  joinType : JoinType
  deriving Repr, DecidableEq

/-- The joined tables in order of registration; the root is always there. -/
structure TableTree where
  joins : List TableNode := []
  deriving Repr, DecidableEq

namespace TableTree

/-- The alias of the table with a number. -/
def aliasOf (number : Nat) : String := "t" ++ toString number

/-- The table that the query starts from. -/
def root : TableNode := ⟨"", aliasOf 0, none, .inner⟩

def nodes (t : TableTree) : List TableNode := root :: t.joins

/-- The number of tables. -/
def size (t : TableTree) : Nat := t.nodes.length

/-- Whether nothing is joined to the root. -/
def isEmpty (t : TableTree) : Bool := t.joins.isEmpty

def node? (t : TableTree) (path : String) : Option TableNode := t.nodes.find? (·.path == path)

def aliasAt? (t : TableTree) (path : String) : Option String := (t.node? path).map (·.aliasName)

def hasPath (t : TableTree) (path : String) : Bool := (t.node? path).isSome

/-- Registers a join, unless its path is registered, and tells whether it did. -/
def addJoin (t : TableTree) (j : TableJoin) : Bool × TableTree :=
  if t.hasPath j.path then (false, t)
  else (true, { joins := t.joins ++ [⟨j.path, aliasOf t.size, some j.relationship, j.joinType⟩] })

theorem hasPath_iff (t : TableTree) (path : String) :
    t.hasPath path = true ↔ path ∈ t.nodes.map (·.path) := by
  simp [hasPath, node?]

/-- A new path gets the table behind all others. -/
theorem nodes_addJoin_of_new (t : TableTree) (j : TableJoin) (new : t.hasPath j.path = false) :
    (t.addJoin j).2.nodes =
      t.nodes ++ [⟨j.path, aliasOf t.size, some j.relationship, j.joinType⟩] := by
  simp [addJoin, new, nodes]

/-- A registered path changes nothing. -/
theorem addJoin_of_registered (t : TableTree) (j : TableJoin)
    (registered : t.hasPath j.path = true) :
    t.addJoin j = (false, t) := by
  simp [addJoin, registered]

/-- Registers joins in order. -/
def addJoins (t : TableTree) (joins : List TableJoin) : TableTree :=
  joins.foldl (fun t j => (t.addJoin j).2) t

end TableTree

end ObjectRelational
