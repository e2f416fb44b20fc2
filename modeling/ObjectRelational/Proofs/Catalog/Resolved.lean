import ObjectRelational.Catalog.Basic
import ObjectRelational.Proofs.Data.Except
import ObjectRelational.Proofs.Data.List

set_option autoImplicit false
set_option relaxedAutoImplicit false

/-!
What a catalog that was compiled can be relied on for: a name stands for one table, and the tables
of every join are tables of the catalog.
-/

namespace ObjectRelational

namespace Join

theorem mem_of_findTable {tables : List Table} {name : String} {t : Table}
    (found : findTable tables name = some t) : t ∈ tables ∧ t.name = name := by
  refine ⟨List.mem_of_find?_eq_some found, ?_⟩
  simpa using List.find?_some found

theorem findTable_name {tables : List Table} (distinct : (tables.map (·.name)).Nodup) {t : Table}
    (member : t ∈ tables) : findTable tables t.name = some t := find?_of_nodup distinct member

theorem resolveTable_eq_ok_iff {j : Join} {tables : List Table} {d : Direction} {t : Table} :
    j.resolveTable tables d = .ok t ↔ findTable tables (j.entities.on d) = some t := by
  unfold resolveTable
  cases findTable tables (j.entities.on d) <;> simp

private theorem resolveColumn_eq_ok_iff {t : Table} {name : String} {column : Column} :
    resolveColumn t name = .ok column ↔ t.column? name = some column := by
  unfold resolveColumn
  cases t.column? name <;> simp

private theorem on_of_resolvePair {ends : Sides Table} {pair : ColumnPair} {columns : Sides Column}
    (found : resolvePair ends pair = .ok columns) (d : Direction) :
    (ends.on d).column? (pair.on d) = some (columns.on d) := by
  obtain ⟨left, hleft, found⟩ := bind_eq_ok_iff.mp found
  obtain ⟨right, hright, found⟩ := bind_eq_ok_iff.mp found
  obtain rfl := Except.ok.inj found
  cases d with
  | left => exact resolveColumn_eq_ok_iff.mp hleft
  | right => exact resolveColumn_eq_ok_iff.mp hright

theorem of_resolveParts {j : Join} {tables : List Table} {ends : Sides Table}
    {pairs : List (Sides Column)} (found : j.resolveParts tables = .ok (ends, pairs))
    (d : Direction) :
    findTable tables (j.entities.on d) = some (ends.on d) ∧
      List.Forall₂ (fun pair columns => (ends.on d).column? (pair.on d) = some (columns.on d))
        j.condition.pairs pairs := by
  unfold resolveParts at found
  dsimp only at found
  split at found
  · cases found
  · obtain ⟨left, hleft, found⟩ := bind_eq_ok_iff.mp found
    obtain ⟨right, hright, found⟩ := bind_eq_ok_iff.mp found
    obtain ⟨resolved, each, found⟩ := bind_eq_ok_iff.mp found
    obtain ⟨rfl, rfl⟩ := Prod.mk.inj (Except.ok.inj found)
    constructor
    · cases d with
      | left => exact resolveTable_eq_ok_iff.mp hleft
      | right => exact resolveTable_eq_ok_iff.mp hright
    · exact (mapM_ok_iff_forall₂.mp each).imp fun _ _ step => on_of_resolvePair step d

/-- A resolved join holds what its declaration names. -/
structure Resolves (j : Join) (tables : List Table) (resolved : ResolvedJoin) : Prop where
  declaration : resolved.declaration = j
  table : ∀ d, findTable tables (j.entities.on d) = some (resolved.tables.on d)
  columns : ∀ d, List.Forall₂
    (fun pair column => (resolved.tables.on d).column? (pair.on d) = some column)
    j.condition.pairs (resolved.columns.on d)

/-- Resolving a join finds its tables and columns, and draws a name for each direction without
one. -/
theorem of_resolve {j : Join} {tables : List Table} {number : Nat}
    {supply after : NameSupply} {resolved : ResolvedJoin}
    (found : j.resolve tables number supply = (.ok resolved, after)) :
    ∃ ends pairs, j.resolveParts tables = .ok (ends, pairs) ∧
      let left := nameFrom supply j.names.left
      let right := nameFrom left.2 j.names.right
      resolved = ⟨number, j, ends, ⟨left.1, right.1⟩,
        ⟨pairs.map (·.left), pairs.map (·.right)⟩⟩ ∧ after = right.2 := by
  unfold resolve at found
  split at found
  · injection found with failed
    cases failed
  · rename_i ends pairs parts
    injection found with same last
    exact ⟨ends, pairs, parts, (Except.ok.inj same).symm, last.symm⟩

theorem resolves_of_resolve {j : Join} {tables : List Table} {number : Nat}
    {supply after : NameSupply} {resolved : ResolvedJoin}
    (found : j.resolve tables number supply = (.ok resolved, after)) :
    j.Resolves tables resolved := by
  obtain ⟨ends, pairs, parts, rfl, -⟩ := of_resolve found
  refine ⟨rfl, fun d => (of_resolveParts parts d).1, fun d => ?_⟩
  have listed : (Sides.mk (pairs.map (·.left)) (pairs.map (·.right))).on d =
      pairs.map (·.on d) := by cases d <;> rfl
  change List.Forall₂ _ _ ((Sides.mk (pairs.map (·.left)) (pairs.map (·.right))).on d)
  rw [listed, List.forall₂_map_right_iff]
  exact (of_resolveParts parts d).2

theorem name_of_resolve {j : Join} {tables : List Table} {number : Nat}
    {supply after : NameSupply} {resolved : ResolvedJoin}
    (found : j.resolve tables number supply = (.ok resolved, after)) {d : Direction} {name : String}
    (named : j.names.on d = some name) : resolved.names.on d = name := by
  obtain ⟨ends, pairs, -, rfl, -⟩ := of_resolve found
  cases d with
  | left => exact congrArg (fun n => (nameFrom supply n).1) named
  | right => exact congrArg (fun n => (nameFrom (nameFrom supply j.names.left).2 n).1) named

theorem pairs_ne_nil_of_resolve {j : Join} {tables : List Table} {number : Nat}
    {supply after : NameSupply} {resolved : ResolvedJoin}
    (found : j.resolve tables number supply = (.ok resolved, after)) : j.condition.pairs ≠ [] := by
  obtain ⟨ends, pairs, parts, -, -⟩ := of_resolve found
  intro none
  rw [resolveParts, none] at parts
  cases parts

namespace Resolves

variable {j : Join} {tables : List Table} {resolved : ResolvedJoin}

private theorem table_mem (h : j.Resolves tables resolved) (d : Direction) :
    resolved.tables.on d ∈ tables := (mem_of_findTable (h.table d)).1

theorem mem_columns_iff (h : j.Resolves tables resolved) {d : Direction} {column : Column} :
    column ∈ resolved.columns.on d ↔
      ∃ pair ∈ j.condition.pairs, (resolved.tables.on d).column? (pair.on d) = some column := by
  constructor
  · exact exists_left_of_forall₂ (h.columns d)
  · rintro ⟨pair, member, found⟩
    obtain ⟨column', member', found'⟩ := exists_right_of_forall₂ (h.columns d) member
    rw [found] at found'
    exact Option.some.inj found' ▸ member'

theorem column_mem (h : j.Resolves tables resolved) (d : Direction) :
    ∀ column ∈ resolved.columns.on d, column ∈ (resolved.tables.on d).columns := by
  intro column member
  obtain ⟨pair, -, found⟩ := h.mem_columns_iff.mp member
  exact List.mem_of_find?_eq_some found

end Resolves

end Join

namespace Catalog

theorem of_resolveJoins_cons {tables : List Table} {number : Nat} {j : Join} {joins : List Join}
    {supply after : NameSupply} {resolved : List ResolvedJoin}
    (found : resolveJoins tables number (j :: joins) supply = (.ok resolved, after)) :
    ∃ first rest between, j.resolve tables number supply = (.ok first, between) ∧
      resolveJoins tables (number + 1) joins between = (.ok rest, after) ∧
      resolved = first :: rest := by
  unfold resolveJoins at found
  split at found
  · injection found with failed
    cases failed
  · rename_i first between one
    split at found
    · injection found with failed
      cases failed
    · rename_i rest last others
      injection found with same last
      obtain rfl := Except.ok.inj same
      exact ⟨first, rest, between, one, last ▸ others, rfl⟩

theorem forall₂_of_resolveJoins {R : Join → ResolvedJoin → Prop} {tables : List Table}
    (each : ∀ {j number supply resolved after},
      j.resolve tables number supply = (.ok resolved, after) → R j resolved)
    {number : Nat} {joins : List Join} {supply after : NameSupply} {resolved : List ResolvedJoin}
    (found : resolveJoins tables number joins supply = (.ok resolved, after)) :
    List.Forall₂ R joins resolved := by
  induction joins generalizing number supply after resolved with
  | nil =>
    obtain ⟨same, -⟩ := Prod.mk.inj found
    obtain rfl := Except.ok.inj same
    exact .nil
  | cons j joins ih =>
    obtain ⟨first, rest, between, one, others, rfl⟩ := of_resolveJoins_cons found
    exact .cons (each one) (ih others)

theorem resolves_of_resolveJoins {tables : List Table} {number : Nat} {joins : List Join}
    {supply after : NameSupply} {resolved : List ResolvedJoin}
    (found : resolveJoins tables number joins supply = (.ok resolved, after)) :
    List.Forall₂ (fun j r => j.Resolves tables r) joins resolved :=
  forall₂_of_resolveJoins Join.resolves_of_resolve found

theorem of_gatherTables {maps : List DataMap} {tables : List Table}
    (gathered : gatherTables maps = .ok tables) :
    tables = maps.flatMap (·.tables) ∧ (tables.map (·.name)).Nodup := by
  have both := foldlM_ok_induction
    (P := fun items tables => tables = items.map (·.2) ∧ (tables.map (·.name)).Nodup)
    ?_ gathered ⟨rfl, List.nodup_nil⟩
  · rw [List.map_flatMap] at both
    simpa only [List.map_map, Function.comp_def, List.map_id'] using both
  · rintro done tables ⟨map, table⟩ more accepted ⟨rfl, distinct⟩
    dsimp only at accepted
    split at accepted
    · cases accepted
    · rename_i new
      obtain rfl := Except.ok.inj accepted
      refine ⟨?_, nodup_of_new distinct new⟩
      rw [List.map_append, List.map_singleton]

/-- What a successful compilation found at each of its stages. -/
structure Stages (maps : List DataMap) (supply after : NameSupply) (c : Catalog) : Prop where
  tables : gatherTables maps = .ok c.tables
  objects : gatherObjects maps c.tables = .ok c.objects
  targets : checkTargets c.objects = .ok ()
  joins : resolveJoins c.tables 0 (maps.flatMap (·.joins)) supply = (.ok c.joins, after)
  registry : registerSides c.joins = .ok c.registry

theorem stages_of_compile {maps : List DataMap} {supply after : NameSupply} {c : Catalog}
    (compiled : compile maps supply = (.ok c, after)) : Stages maps supply after c := by
  unfold compile at compiled
  split at compiled
  · injection compiled with failed
    cases failed
  · rename_i tables objects entities
    split at compiled
    · injection compiled with failed
      cases failed
    · rename_i joins supply' resolved
      split at compiled
      · injection compiled with failed
        cases failed
      · rename_i registry registered
        obtain ⟨rfl, rfl⟩ := Prod.mk.inj compiled |>.imp_left Except.ok.inj
        obtain ⟨gathered, hgathered, entities⟩ := bind_eq_ok_iff.mp entities
        obtain ⟨mapped, hmapped, entities⟩ := bind_eq_ok_iff.mp entities
        obtain ⟨⟨⟩, htargets, entities⟩ := bind_eq_ok_iff.mp entities
        obtain ⟨rfl, rfl⟩ := Prod.mk.inj (Except.ok.inj entities)
        exact ⟨hgathered, hmapped, htargets, resolved, registered⟩

/-- A name stands for one table, and joins are between tables of the catalog. -/
structure Resolved (c : Catalog) : Prop where
  distinct : (c.tables.map (·.name)).Nodup
  joined : ∀ j ∈ c.joins, ∀ d, j.tables.on d ∈ c.tables

theorem resolved_of_compile {maps : List DataMap} {supply after : NameSupply} {c : Catalog}
    (compiled : compile maps supply = (.ok c, after)) : c.Resolved := by
  have stages := stages_of_compile compiled
  refine ⟨(of_gatherTables stages.tables).2, fun r member d => ?_⟩
  obtain ⟨j, -, resolves⟩ :=
    exists_left_of_forall₂ (resolves_of_resolveJoins stages.joins) member
  exact resolves.table_mem d

theorem join_mem_of_mem_sides {c : Catalog} {r : Relationship} (member : r ∈ c.sides) :
    r.join ∈ c.joins := by
  obtain ⟨j, hj, hr⟩ := List.mem_flatMap.mp member
  rcases List.mem_cons.mp hr with rfl | hr
  · exact hj
  · rw [List.mem_singleton.mp hr]
    exact hj

namespace Resolved

variable {c : Catalog}

theorem table?_name (h : c.Resolved) {t : Table} (member : t ∈ c.tables) :
    c.table? t.name = some t := Join.findTable_name h.distinct member

theorem eq_of_name (h : c.Resolved) {t s : Table} (ht : t ∈ c.tables) (hs : s ∈ c.tables)
    (same : t.name = s.name) : t = s := by
  have found := h.table?_name ht
  rw [same, h.table?_name hs] at found
  exact (Option.some.inj found).symm

private theorem on_mem (h : c.Resolved) {r : Relationship} (member : r ∈ c.sides) (d : Direction) :
    r.join.tables.on d ∈ c.tables := h.joined _ (join_mem_of_mem_sides member) d

theorem source_mem (h : c.Resolved) {r : Relationship} (member : r ∈ c.sides) :
    r.source ∈ c.tables := h.on_mem member _

theorem target_mem (h : c.Resolved) {r : Relationship} (member : r ∈ c.sides) :
    r.target ∈ c.tables := h.on_mem member _

end Resolved

end Catalog

end ObjectRelational
