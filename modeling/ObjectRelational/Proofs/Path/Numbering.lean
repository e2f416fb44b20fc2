import Mathlib
import ObjectRelational.Proofs.Data.List
import ObjectRelational.Proofs.Path.TableTree

set_option autoImplicit false
set_option relaxedAutoImplicit false

/-!
Table trees as lists that grow. The tables are numbered in the order of their registration, the
root first, and an alias is the number of its table. Calls add tables behind those that are there
and change none of them. The number of each path can be kept beside the tables: then a table is
found without a search, and it is the same one.
-/

namespace ObjectRelational

inductive Registration
  | one (j : TableJoin)
  | all (joins : List TableJoin)
  deriving Repr, DecidableEq

namespace TableTree

def register (t : TableTree) : Registration → TableTree
  | .one j => (t.addJoin j).2
  | .all joins => t.addJoins joins

def registerAll (t : TableTree) (calls : List Registration) : TableTree := calls.foldl register t

variable {t : TableTree}

private theorem register_induction {P : TableTree → Prop} (step : ∀ t j, P t → P (t.addJoin j).2)
    (first : P t) (call : Registration) : P (t.register call) := by
  cases call with
  | one j => exact step t j first
  | all joins =>
    change P (t.addJoins joins)
    induction joins generalizing t with
    | nil => exact first
    | cons j joins ih => exact ih (step t j first)

private theorem registerAll_induction {P : TableTree → Prop} (step : ∀ t j, P t → P (t.addJoin j).2)
    (first : P t) (calls : List Registration) : P (t.registerAll calls) := by
  induction calls generalizing t with
  | nil => exact first
  | cons call calls ih => exact ih (register_induction step first call)

section Growth

private theorem addJoin_fst (t : TableTree) (j : TableJoin) :
    (t.addJoin j).1 = !t.hasPath j.path := by
  cases registered : t.hasPath j.path <;> simp [addJoin, registered]

private theorem addJoin_fst_eq_true_iff {j : TableJoin} :
    (t.addJoin j).1 = true ↔
      ∃ node : TableNode, node.Attaches j ∧ (t.addJoin j).2.nodes = t.nodes ++ [node] := by
  rw [addJoin_fst]
  cases registered : t.hasPath j.path with
  | true =>
    rw [addJoin_of_registered t j registered]
    simp
  | false =>
    rw [t.nodes_addJoin_of_new j registered]
    exact ⟨fun _ => ⟨_, ⟨rfl, rfl, rfl⟩, rfl⟩, fun _ => rfl⟩

private theorem addJoin_fst_eq_false_iff {j : TableJoin} :
    (t.addJoin j).1 = false ↔ (t.addJoin j).2 = t := by
  rw [addJoin_fst]
  cases registered : t.hasPath j.path with
  | true =>
    rw [addJoin_of_registered t j registered]
    simp
  | false =>
    have grown := t.nodes_addJoin_of_new j registered
    constructor
    · nofun
    · intro same
      rw [same] at grown
      simp at grown

private theorem nodes_register_prefix (t : TableTree) (call : Registration) :
    t.nodes <+: (t.register call).nodes := by
  cases call with
  | one j => exact t.nodes_addJoin_prefix j
  | all joins => exact t.nodes_addJoins_prefix joins

private theorem nodes_registerAll_prefix (t : TableTree) (calls : List Registration) :
    t.nodes <+: (t.registerAll calls).nodes := by
  refine registerAll_induction (P := fun grown => t.nodes <+: grown.nodes) ?_ List.prefix_rfl calls
  intro grown j before
  exact before.trans (grown.nodes_addJoin_prefix j)

private theorem node?_of_prefix {grown : TableTree} (before : t.nodes <+: grown.nodes)
    {path : String} {node : TableNode} (found : t.node? path = some node) :
    grown.node? path = some node :=
  before.find?_eq_some found

end Growth

private theorem aliasOf_injective : Function.Injective aliasOf := by
  intro m n same
  exact Nat.repr_injective ((String.append_right_inj "t").mp same)

/-- The aliases are the numbers of the tables, and no two tables are at one path. -/
structure Numbered (t : TableTree) : Prop where
  aliases : t.nodes.map (·.aliasName) = (List.range t.size).map aliasOf
  paths : (t.nodes.map (·.path)).Nodup

private theorem numbered_empty : Numbered {} := ⟨rfl, List.nodup_singleton _⟩

namespace Numbered

private theorem addJoin (h : t.Numbered) (j : TableJoin) : (t.addJoin j).2.Numbered := by
  cases registered : t.hasPath j.path with
  | true =>
    rw [addJoin_of_registered t j registered]
    exact h
  | false =>
    have grown := t.nodes_addJoin_of_new j registered
    have new : j.path ∉ t.nodes.map (·.path) := by
      rw [← hasPath_iff, registered]
      exact Bool.false_ne_true
    constructor
    · rw [size, grown, List.map_append, h.aliases, List.length_append, List.length_singleton,
        List.range_succ, List.map_append]
      rfl
    · rw [grown, List.map_append, List.map_singleton, ← List.concat_eq_append]
      exact List.Nodup.concat new h.paths

private theorem registerAll (h : t.Numbered) (calls : List Registration) :
    (t.registerAll calls).Numbered :=
  registerAll_induction (fun _ j before => before.addJoin j) h calls

private theorem aliasName_eq (h : t.Numbered) {i : Nat} {node : TableNode}
    (there : t.nodes[i]? = some node) : node.aliasName = aliasOf i := by
  have listed := congrArg (·[i]?) h.aliases
  have inside : i < t.size := (List.getElem?_eq_some_iff.mp there).choose
  simpa [there, inside] using listed

private theorem aliases_nodup (h : t.Numbered) : (t.nodes.map (·.aliasName)).Nodup := by
  rw [h.aliases]
  exact List.Nodup.map aliasOf_injective List.nodup_range

private theorem node?_eq_some_iff (h : t.Numbered) {path : String} {node : TableNode} :
    t.node? path = some node ↔ node ∈ t.nodes ∧ node.path = path := by
  constructor
  · intro found
    exact ⟨List.mem_of_find?_eq_some found, by simpa using List.find?_some found⟩
  · rintro ⟨member, rfl⟩
    exact find?_of_nodup h.paths member

end Numbered

end TableTree

structure IndexedTree where
  nodes : List TableNode
  numbers : Std.HashMap String Nat

namespace IndexedTree

def start : IndexedTree := ⟨[TableTree.root], Std.HashMap.emptyWithCapacity.insert "" 0⟩

def node? (i : IndexedTree) (path : String) : Option TableNode :=
  i.numbers[path]?.bind (i.nodes[·]?)

def addJoin (i : IndexedTree) (j : TableJoin) : Bool × IndexedTree :=
  if i.numbers.contains j.path then (false, i)
  else
    (true,
      { nodes := i.nodes ++
          [⟨j.path, TableTree.aliasOf i.nodes.length, some j.relationship, j.joinType⟩]
        numbers := i.numbers.insert j.path i.nodes.length })

def register (i : IndexedTree) : Registration → IndexedTree
  | .one j => (i.addJoin j).2
  | .all joins => joins.foldl (fun i j => (i.addJoin j).2) i

def registerAll (i : IndexedTree) (calls : List Registration) : IndexedTree :=
  calls.foldl register i

/-- The tables are those of the tree, and each path has the number of the table that is there. -/
structure Indexes (i : IndexedTree) (t : TableTree) : Prop where
  nodes : i.nodes = t.nodes
  numbers : ∀ path, i.numbers[path]? = t.nodes.findIdx? (·.path == path)

private theorem indexes_start : start.Indexes {} := by
  refine ⟨rfl, fun path => ?_⟩
  change _ = [TableTree.root].findIdx? (·.path == path)
  rw [start, Std.HashMap.getElem?_insert, List.findIdx?_singleton]
  simp [TableTree.root]

namespace Indexes

variable {i : IndexedTree} {t : TableTree}

private theorem node?_eq (h : i.Indexes t) (path : String) : i.node? path = t.node? path := by
  rw [node?, h.numbers, h.nodes, TableTree.node?, List.find?_eq_bind_findIdx?_getElem?]

private theorem contains_eq (h : i.Indexes t) (path : String) :
    i.numbers.contains path = t.hasPath path := by
  rw [Std.HashMap.contains_eq_isSome_getElem?, h.numbers, TableTree.hasPath, TableTree.node?,
    List.findIdx?_isSome, List.isSome_find?]

private theorem addJoin (h : i.Indexes t) (j : TableJoin) :
    (i.addJoin j).1 = (t.addJoin j).1 ∧ (i.addJoin j).2.Indexes (t.addJoin j).2 := by
  have known := h.contains_eq j.path
  cases registered : t.hasPath j.path with
  | true =>
    rw [TableTree.addJoin_of_registered t j registered, IndexedTree.addJoin,
      if_pos (known.trans registered)]
    exact ⟨rfl, h⟩
  | false =>
    have unknown : ¬ i.numbers.contains j.path = true := by
      rw [known, registered]
      exact Bool.false_ne_true
    rw [IndexedTree.addJoin, if_neg unknown]
    refine ⟨by rw [TableTree.addJoin_fst, registered]; rfl, ?_, fun path => ?_⟩
    · rw [t.nodes_addJoin_of_new j registered, ← h.nodes, TableTree.size, ← h.nodes]
    · have absent : t.nodes.findIdx? (·.path == j.path) = none := by
        rw [← h.numbers]
        simpa using unknown
      dsimp only
      rw [t.nodes_addJoin_of_new j registered, Std.HashMap.getElem?_insert, h.numbers, h.nodes,
        List.findIdx?_append, List.findIdx?_singleton]
      by_cases same : j.path = path
      · subst same
        simp [absent]
      · simp [same]

private theorem register (h : i.Indexes t) (call : Registration) :
    (i.register call).Indexes (t.register call) := by
  cases call with
  | one j => exact (h.addJoin j).2
  | all joins =>
    change Indexes (joins.foldl _ i) (t.addJoins joins)
    induction joins generalizing i t with
    | nil => exact h
    | cons j joins ih => exact ih (h.addJoin j).2

private theorem registerAll (h : i.Indexes t) (calls : List Registration) :
    (i.registerAll calls).Indexes (t.registerAll calls) := by
  induction calls generalizing i t with
  | nil => exact h
  | cons call calls ih => exact ih (h.register call)

end Indexes

end IndexedTree

namespace TableTree

/-- After any run of calls, the tables are numbered from the root on, and told apart by their paths
and by their aliases, which are the numbers. A further call keeps the tables that are there, in
their places, and what is found at a path stays so. With the number of each path beside them, the
same tables are kept and found. -/
theorem registerAll_numbers_tables (calls : List Registration) :
    let t := registerAll {} calls
    let indexed := IndexedTree.start.registerAll calls
    (∃ first, t.nodes[0]? = some first ∧ first.path = "" ∧ first.relationship = none) ∧
      (∀ (i : Nat) (node : TableNode), t.nodes[i]? = some node →
        node.aliasName = "t" ++ toString i) ∧
      (t.nodes.map (·.path)).Nodup ∧ (t.nodes.map (·.aliasName)).Nodup ∧
      (∀ path node, t.node? path = some node ↔ node ∈ t.nodes ∧ node.path = path) ∧
      (∀ call, t.nodes <+: (t.register call).nodes) ∧
      (∀ more path node, t.node? path = some node →
        (t.registerAll more).node? path = some node) ∧
      (∀ j, ((t.addJoin j).1 = true ↔
          ∃ node : TableNode, node.Attaches j ∧ (t.addJoin j).2.nodes = t.nodes ++ [node]) ∧
        ((t.addJoin j).1 = false ↔ (t.addJoin j).2 = t)) ∧
      indexed.nodes = t.nodes ∧ (∀ path, indexed.node? path = t.node? path) ∧
      ∀ j, (indexed.addJoin j).1 = (t.addJoin j).1 := by
  intro t indexed
  have numbered : t.Numbered := numbered_empty.registerAll calls
  have indexes : indexed.Indexes t := IndexedTree.indexes_start.registerAll calls
  refine ⟨⟨root, rfl, rfl, rfl⟩, fun _ _ there => numbered.aliasName_eq there, numbered.paths,
    numbered.aliases_nodup, fun _ _ => numbered.node?_eq_some_iff, t.nodes_register_prefix,
    ?_, fun _ => ⟨addJoin_fst_eq_true_iff, addJoin_fst_eq_false_iff⟩, indexes.nodes,
    indexes.node?_eq, fun j => (indexes.addJoin j).1⟩
  intro more path node found
  exact node?_of_prefix (t.nodes_registerAll_prefix more) found

end TableTree

end ObjectRelational
