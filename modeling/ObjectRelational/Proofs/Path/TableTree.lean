import ObjectRelational.Path.TableTree

set_option autoImplicit false
set_option relaxedAutoImplicit false

/-!
What registering joins does to a table tree. The paths that were asked for are there, tables are
added behind those that were there before, and each added table is one that was asked for.
-/

namespace ObjectRelational

structure TableNode.Attaches (node : TableNode) (j : TableJoin) : Prop where
  path : node.path = j.path
  relationship : node.relationship = some j.relationship
  joinType : node.joinType = j.joinType

namespace TableTree

theorem hasPath_root (t : TableTree) : t.hasPath "" = true := by
  rw [hasPath_iff]
  exact List.mem_cons_self

theorem addJoin_cases (t : TableTree) (j : TableJoin) :
    (t.hasPath j.path = true ∧ (t.addJoin j).2 = t) ∨
      ∃ node : TableNode, node.Attaches j ∧ (t.addJoin j).2.joins = t.joins ++ [node] := by
  cases registered : t.hasPath j.path with
  | true =>
    left
    rw [addJoin_of_registered t j registered]
    exact ⟨rfl, rfl⟩
  | false =>
    right
    refine ⟨⟨j.path, aliasOf t.size, some j.relationship, j.joinType⟩, ⟨rfl, rfl, rfl⟩, ?_⟩
    simp [addJoin, registered]

theorem hasPath_addJoin {t : TableTree} {j : TableJoin} {path : String} :
    (t.addJoin j).2.hasPath path = true ↔ t.hasPath path = true ∨ j.path = path := by
  rcases t.addJoin_cases j with ⟨registered, same⟩ | ⟨node, attaches, joins⟩
  · rw [same]
    constructor
    · exact .inl
    · rintro (there | rfl)
      · exact there
      · exact registered
  · have all : (t.addJoin j).2.nodes = t.nodes ++ [node] := congrArg (root :: ·) joins
    rw [hasPath_iff, all, List.map_append, List.mem_append, ← hasPath_iff, List.map_singleton,
      List.mem_singleton, attaches.path, eq_comm (a := path)]

private theorem of_mem_addJoin {t : TableTree} {j : TableJoin} {node : TableNode}
    (member : node ∈ (t.addJoin j).2.joins) : node ∈ t.joins ∨ node.Attaches j := by
  rcases t.addJoin_cases j with ⟨-, same⟩ | ⟨added, attaches, joins⟩
  · rw [same] at member
    exact .inl member
  · rw [joins] at member
    rcases List.mem_append.mp member with member | member
    · exact .inl member
    · rw [List.mem_singleton.mp member]
      exact .inr attaches

private theorem addJoins_cons (t : TableTree) (j : TableJoin) (joins : List TableJoin) :
    t.addJoins (j :: joins) = (t.addJoin j).2.addJoins joins := rfl

theorem addJoins_append (t : TableTree) (joins more : List TableJoin) :
    t.addJoins (joins ++ more) = (t.addJoins joins).addJoins more := List.foldl_append

theorem hasPath_addJoins {t : TableTree} {joins : List TableJoin} {path : String} :
    (t.addJoins joins).hasPath path = true ↔
      t.hasPath path = true ∨ ∃ j ∈ joins, j.path = path := by
  induction joins generalizing t with
  | nil => simp [addJoins]
  | cons j joins ih =>
    rw [addJoins_cons, ih, hasPath_addJoin, or_assoc]
    simp

theorem of_mem_addJoins {t : TableTree} {joins : List TableJoin} {node : TableNode}
    (member : node ∈ (t.addJoins joins).joins) :
    node ∈ t.joins ∨ ∃ j ∈ joins, node.Attaches j := by
  induction joins generalizing t with
  | nil => exact .inl member
  | cons j joins ih =>
    rcases ih member with earlier | ⟨later, hlater, attaches⟩
    · rcases of_mem_addJoin earlier with old | attaches
      · exact .inl old
      · exact .inr ⟨j, List.mem_cons_self, attaches⟩
    · exact .inr ⟨later, List.mem_cons_of_mem _ hlater, attaches⟩

theorem nodes_addJoin_prefix (t : TableTree) (j : TableJoin) :
    t.nodes <+: (t.addJoin j).2.nodes := by
  cases registered : t.hasPath j.path with
  | true => simp [addJoin_of_registered t j registered]
  | false =>
    rw [t.nodes_addJoin_of_new j registered]
    exact List.prefix_append _ _

theorem nodes_addJoins_prefix (t : TableTree) (joins : List TableJoin) :
    t.nodes <+: (t.addJoins joins).nodes := by
  induction joins generalizing t with
  | nil => exact List.prefix_rfl
  | cons j joins ih => exact (t.nodes_addJoin_prefix j).trans (ih _)

/-- The tables of `t`, and behind them tables that the joins ask for, so that each of their paths has
one. -/
structure GrownBy (t : TableTree) (joins : List TableJoin) (grown : TableTree) : Prop where
  kept : t.nodes <+: grown.nodes
  covered : ∀ j ∈ joins, ∃ node ∈ grown.nodes, node.path = j.path
  attached : ∀ node ∈ grown.nodes, node ∈ t.nodes ∨ ∃ j ∈ joins, node.Attaches j

theorem grownBy_addJoins (t : TableTree) (joins : List TableJoin) :
    t.GrownBy joins (t.addJoins joins) where
  kept := t.nodes_addJoins_prefix joins
  covered j member := by
    have there : (t.addJoins joins).hasPath j.path = true :=
      hasPath_addJoins.mpr (.inr ⟨j, member, rfl⟩)
    exact List.mem_map.mp ((hasPath_iff _ _).mp there)
  attached node member := by
    rcases List.mem_cons.mp member with rfl | member
    · exact .inl List.mem_cons_self
    · rcases of_mem_addJoins member with earlier | attaches
      · exact .inl (List.mem_cons_of_mem _ earlier)
      · exact .inr attaches

end TableTree

end ObjectRelational
