import ObjectRelational.Catalog.Basic
import ObjectRelational.Digraph.StrongComponents
import ObjectRelational.Digraph.TopologicalOrder

set_option autoImplicit false
set_option relaxedAutoImplicit false

/-!
Commit order. A relationship whose source row refers to the key of its target row wants the
target written first. Tables that want this of each other form a group, and the groups are ranked
so that every table comes behind those that it refers to. What this leaves open a policy decides:
which of several tables goes first, and which of the relationships of a table to itself order its
rows.
-/

namespace ObjectRelational

/-- Which group of tables goes first when several may. -/
inductive TieBreak
  /-- The one whose first table was declared first. -/
  | insertionOrder
  /-- The one with the least name of a table. -/
  | entityName
  deriving Repr, DecidableEq

/-- Which relationships of a table to itself are recorded. -/
inductive ReflexivePolicy
  | firstPerEntity
  | everyRelationship
  deriving Repr, DecidableEq

structure CommitPolicy where
  tieBreak : TieBreak := .insertionOrder
  reflexive : ReflexivePolicy := .firstPerEntity
  deriving Repr, DecidableEq

def TieBreak.name : TieBreak → String
  | insertionOrder => "InsertionOrder"
  | entityName => "EntityName"

def ReflexivePolicy.name : ReflexivePolicy → String
  | firstPerEntity => "FirstPerEntity"
  | everyRelationship => "EveryRelationship"

/-- The least of the names. -/
def leastName : List String → Option String
  | [] => none
  | name :: names =>
    match leastName names with
    | none => some name
    | some least => some (if least < name then least else name)

namespace Relationship

/-- Whether the source row refers to the target row, and not the other way round. -/
def refers (r : Relationship) : Bool := (!r.isToMany && !r.isToDependent) || r.isToMaster

/-- The matched target columns that belong to the key of their table. -/
def referencedKey (r : Relationship) : List Column := r.targetColumns.filter (·.primaryKey)

/-- Whether the target table has to be written before the source table. -/
def constrains (r : Relationship) : Bool := r.refers && !r.referencedKey.isEmpty

end Relationship

/-- Tables that have to be written together, and their place in the order. -/
structure CommitGroup where
  rank : Nat
  tables : List Table
  deriving Repr, DecidableEq

def CommitGroup.hasTable (g : CommitGroup) (table : String) : Bool :=
  g.tables.any (·.name == table)

/-- The groups in the order in which they are written. -/
structure CommitIndex where
  groups : List CommitGroup
  /-- Recorded relationships of tables to themselves. -/
  reflexive : Registry
  /-- The number of ordered pairs of tables of which the first has to be written before the
  second. -/
  arcs : Nat
  deriving Repr, DecidableEq

namespace CommitIndex

/-- The relationships that the order has to respect. -/
def constraints (c : Catalog) : List Relationship := c.sides.filter (·.constrains)

/-- An arc leads from a table to one that is written after it, labelled with the key columns that
the latter refers to. -/
def dependencyGraph (c : Catalog) : Digraph String (List Column) :=
  (constraints c).foldl
    (fun g r => g.appendArc r.target.name r.source.name r.referencedKey)
    (.ofVertices (c.tables.map (·.name)))

/-- Whether a relationship is recorded behind those that are. -/
def records (policy : ReflexivePolicy) (recorded : List Relationship) (r : Relationship) : Bool :=
  match policy with
  | .firstPerEntity => recorded.isEmpty
  | .everyRelationship => !recorded.contains r

def record (policy : ReflexivePolicy) (registry : Registry) (r : Relationship) : Registry :=
  if records policy (registry.under r.source.name) r then registry.insert r.source.name r
  else registry

/-- The relationships of tables to themselves that a policy records. -/
def recordReflexive (policy : ReflexivePolicy) (rs : List Relationship) : Registry :=
  (rs.filter (·.isReflexive)).foldl (record policy) []

/-- Which of two groups of a contracted graph goes first if both may. -/
def preference {E : Type} (tieBreak : TieBreak) (g : Digraph (List String) E) :
    Nat → Nat → Bool :=
  match tieBreak with
  | .insertionOrder => Digraph.prefersEarlier
  | .entityName => g.prefersBy leastName

/-- The names of the tables of each group, in commit order. A contracted graph has no cycle, so
there is one. -/
def groupNames (tieBreak : TieBreak) (g : Digraph String (List Column)) :
    Except CycleError (List (List String)) :=
  let contracted := g.contract
  contracted.topologicalOrder (preference tieBreak contracted)

/-- Ranks groups of tables as they stand. -/
def rankGroups (c : Catalog) (names : List (List String)) : List CommitGroup :=
  names.zipIdx.map fun (members, rank) => ⟨rank, members.filterMap c.table?⟩

/-- The commit order of a catalog. -/
def build (c : Catalog) (policy : CommitPolicy) : CommitIndex :=
  let graph := dependencyGraph c
  { groups := rankGroups c ((groupNames policy.tieBreak graph).toOption.getD [])
    reflexive := recordReflexive policy.reflexive (constraints c)
    arcs := graph.size }

/-- The group of a table. -/
def group? (i : CommitIndex) (table : String) : Option CommitGroup :=
  i.groups.find? (·.hasTable table)

def rank? (i : CommitIndex) (table : String) : Option Nat := (i.group? table).map (·.rank)

/-- The number of tables. -/
def tableCount (i : CommitIndex) : Nat := (i.groups.flatMap (·.tables)).length

/-- The relationships of a table to itself that order its rows. -/
def reflexiveOn (i : CommitIndex) (table : String) : List Relationship := i.reflexive.under table

def isReflexive (i : CommitIndex) (table : String) : Bool := !(i.reflexiveOn table).isEmpty

end CommitIndex

end ObjectRelational
