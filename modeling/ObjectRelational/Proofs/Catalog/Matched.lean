import Mathlib.Data.List.Count
import ObjectRelational.Proofs.Catalog.Resolved

set_option autoImplicit false
set_option relaxedAutoImplicit false

/-!
The matched columns of the relationships of a compiled catalog: pair by pair those that the
condition of the declared join names on its two tables.
-/

namespace ObjectRelational

namespace Relationship

variable {r : Relationship}

def partners (r : Relationship) (k : Column) : List Column :=
  (r.columnPairs.filter (·.2 == k)).map (·.1)

/-- The pairs of the declared condition that lead to a target column. -/
def pairsTo (r : Relationship) (k : Column) : List ColumnPair :=
  r.join.declaration.condition.pairs.filter fun pair =>
    r.target.column? (pair.on r.direction.opposite) == some k

/-- The matched columns are those that the declared condition names, pair by pair. -/
structure Matched (r : Relationship) : Prop where
  length_eq : r.sourceColumns.length = r.targetColumns.length
  named : r.join.declaration.condition.pairs.map
    (fun pair => r.target.column? (pair.on r.direction.opposite)) = r.targetColumns.map some

theorem Matched.target_mem (h : r.Matched) :
    ∀ column ∈ r.targetColumns, column ∈ r.target.columns := by
  intro column member
  have found := List.mem_map_of_mem (f := some) member
  rw [← h.named] at found
  obtain ⟨pair, -, hit⟩ := List.mem_map.mp found
  exact List.mem_of_find?_eq_some hit

theorem Matched.map_fst_columnPairs (h : r.Matched) :
    r.columnPairs.map (·.1) = r.sourceColumns := List.map_fst_zip (Nat.le_of_eq h.length_eq)

theorem Matched.map_snd_columnPairs (h : r.Matched) :
    r.columnPairs.map (·.2) = r.targetColumns := List.map_snd_zip (Nat.le_of_eq h.length_eq.symm)

theorem Matched.length_partners (h : r.Matched) (k : Column) :
    (r.partners k).length = r.targetColumns.count k := by
  rw [partners, List.length_map, ← h.map_snd_columnPairs, List.count_eq_length_filter,
    List.filter_map, List.length_map]
  rfl

theorem Matched.length_pairsTo (h : r.Matched) (k : Column) :
    (r.pairsTo k).length = r.targetColumns.count k := by
  rw [← List.count_map_of_injective _ some fun _ _ => Option.some.inj, ← h.named,
    List.count_eq_length_filter, List.filter_map, List.length_map]
  rfl

end Relationship

theorem Catalog.matched_of_mem_sides {maps : List DataMap} {supply after : NameSupply} {c : Catalog}
    (compiled : compile maps supply = (.ok c, after)) {r : Relationship} (member : r ∈ c.sides) :
    r.Matched := by
  obtain ⟨j, -, resolves⟩ := exists_left_of_forall₂
    (resolves_of_resolveJoins (stages_of_compile compiled).joins) (join_mem_of_mem_sides member)
  have source := resolves.columns r.direction
  have target := resolves.columns r.direction.opposite
  refine ⟨source.length_eq.symm.trans target.length_eq, ?_⟩
  rw [resolves.declaration, ← List.forall₂_eq_eq_eq, List.forall₂_map_left_iff,
    List.forall₂_map_right_iff]
  exact target

end ObjectRelational
