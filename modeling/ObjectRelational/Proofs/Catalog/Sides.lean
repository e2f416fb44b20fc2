import Mathlib.Data.List.Nodup
import Mathlib.Data.List.Zip
import ObjectRelational.Proofs.Catalog.Linked

set_option autoImplicit false
set_option relaxedAutoImplicit false

/-!
The sides of a compiled catalog, one for each direction of each declared join, and what looking one
up finds. A side has the columns that the condition of its join names, pair by pair, and the side
in the other direction has the same pairs, turned round.
-/

namespace ObjectRelational

/-- The column is the first of the table that has the name. -/
def Table.IsFirst (t : Table) (name : String) (column : Column) : Prop :=
  ∃ before after, t.columns = before ++ column :: after ∧ column.name = name ∧
    ∀ other ∈ before, other.name ≠ name

private theorem Table.column?_eq_some_iff {t : Table} {name : String} {column : Column} :
    t.column? name = some column ↔ t.IsFirst name column := by
  rw [column?, List.find?_eq_some_iff_append]
  simp only [beq_iff_eq, Bool.not_eq_true', beq_eq_false_iff_ne]
  constructor
  · rintro ⟨named, before, after, columns, others⟩
    exact ⟨before, after, columns, named, others⟩
  · rintro ⟨before, after, columns, named, others⟩
    exact ⟨named, before, after, columns, others⟩

namespace Registry

private theorem nodup_under_of_register {registry more : Registry} {r : Relationship}
    (registered : registry.register r = .ok more) {table : String}
    (distinct : ((registry.under table).map (·.name)).Nodup) :
    ((more.under table).map (·.name)).Nodup := by
  have listed := under_of_register registered table
  unfold register at registered
  split at registered
  · cases registered
  · rename_i new
    rw [listed]
    by_cases own : r.source.name = table
    · subst own
      simpa using nodup_of_new distinct new
    · simpa [own] using distinct

private theorem nodup_under_of_foldlM_register {rs : List Relationship} {registry : Registry}
    (registered : rs.foldlM register ([] : Registry) = .ok registry) (table : String) :
    ((registry.under table).map (·.name)).Nodup :=
  foldlM_ok_induction (P := fun _ registry => ((registry.under table).map (·.name)).Nodup)
    (fun one before => nodup_under_of_register one before) registered List.nodup_nil

end Registry

namespace Relationship

/-- The source, the target, the name and the matched columns are those that the join declares. -/
structure IsDeclared (r : Relationship) (c : Catalog) : Prop where
  source : c.table? (r.join.declaration.entities.on r.direction) = some r.source
  target : c.table? (r.join.declaration.entities.on r.direction.opposite) = some r.target
  name : ∀ name, r.join.declaration.names.on r.direction = some name → r.name = name
  pairs : List.Forall₂
    (fun pair columns => r.source.IsFirst (pair.on r.direction) columns.1 ∧
      r.target.IsFirst (pair.on r.direction.opposite) columns.2)
    r.join.declaration.condition.pairs r.columnPairs
  nonempty : r.columnPairs ≠ []

/-- The side in the other direction leads back over the same columns. -/
structure IsMirrored (r : Relationship) (c : Catalog) : Prop where
  side : r.reverse ∈ c.sides
  source : r.reverse.source = r.target
  target : r.reverse.target = r.source
  pairs : r.reverse.columnPairs = r.columnPairs.map Prod.swap
  master : r.reverse.isToMaster = r.isToDependent

private theorem source_reverse (r : Relationship) : r.reverse.source = r.target := rfl

private theorem target_reverse (r : Relationship) : r.reverse.target = r.source := by
  rw [target, reverse_reverse]

private theorem columnPairs_reverse (r : Relationship) :
    r.reverse.columnPairs = r.columnPairs.map Prod.swap := by
  rw [columnPairs, targetColumns, reverse_reverse, columnPairs, List.zip_swap, targetColumns]

private theorem isToMaster_reverse (r : Relationship) : r.reverse.isToMaster = r.isToDependent := by
  rw [isToMaster, Join.isToMaster, DependentKey.isToMaster, reverse, Direction.opposite_opposite]
  rfl

theorem isRuntime_eq_false_iff {r : Relationship} :
    r.isRuntime = false ↔ (r.join.declaration.names.on r.direction).isSome = true := by
  rw [isRuntime, ResolvedJoin.isRuntime]
  simp

end Relationship

namespace Catalog

/-- The directions of declared joins, the left one of each first, with the number of the join. -/
def declaredSides (joins : List Join) : List (Nat × Join × Direction) :=
  joins.zipIdx.flatMap fun numbered =>
    [(numbered.2, numbered.1, .left), (numbered.2, numbered.1, .right)]

theorem map_number_of_resolveJoins {tables : List Table} {number : Nat} {joins : List Join}
    {supply after : NameSupply} {resolved : List ResolvedJoin}
    (found : resolveJoins tables number joins supply = (.ok resolved, after)) :
    resolved.map (fun r => (r.declaration, r.number)) = joins.zipIdx number := by
  induction joins generalizing number supply after resolved with
  | nil =>
    obtain ⟨same, -⟩ := Prod.mk.inj found
    obtain rfl := Except.ok.inj same
    rfl
  | cons j joins ih =>
    obtain ⟨first, rest, between, one, others, rfl⟩ := of_resolveJoins_cons found
    obtain ⟨ends, pairs, -, rfl, -⟩ := Join.of_resolve one
    rw [List.map_cons, ih others, List.zipIdx_cons]

private theorem mem_sides_iff {c : Catalog} {r : Relationship} :
    r ∈ c.sides ↔ r.join ∈ c.joins := by
  constructor
  · exact join_mem_of_mem_sides
  · intro member
    refine List.mem_flatMap.mpr ⟨r.join, member, ?_⟩
    obtain ⟨j, d⟩ := r
    cases d
    · exact List.mem_cons_self
    · exact List.mem_cons_of_mem _ List.mem_cons_self

/-- The side is mapped under a name of a table. -/
def Maps (c : Catalog) (table name : String) (r : Relationship) : Prop :=
  r ∈ c.sides ∧ r.source.name = table ∧ r.join.declaration.names.on r.direction = some name

section Compiled

variable {maps : List DataMap} {supply after : NameSupply} {c : Catalog}

private theorem sides_as_declared (compiled : compile maps supply = (.ok c, after)) :
    c.sides.map (fun r => (r.join.number, r.join.declaration, r.direction)) =
      declaredSides (maps.flatMap (·.joins)) := by
  have numbered := map_number_of_resolveJoins (stages_of_compile compiled).joins
  rw [declaredSides, ← numbered, List.flatMap_map, sides, List.map_flatMap]
  rfl

theorem isDeclared_of_mem_sides (compiled : compile maps supply = (.ok c, after))
    {r : Relationship} (member : r ∈ c.sides) : r.IsDeclared c := by
  have each := forall₂_of_resolveJoins
    (R := fun j resolved => j.Resolves c.tables resolved ∧ j.condition.pairs ≠ [] ∧
      ∀ d name, j.names.on d = some name → resolved.names.on d = name)
    (fun found => ⟨Join.resolves_of_resolve found, Join.pairs_ne_nil_of_resolve found,
      fun _ _ named => Join.name_of_resolve found named⟩) (stages_of_compile compiled).joins
  obtain ⟨j, -, resolves, paired, named⟩ :=
    exists_left_of_forall₂ each (join_mem_of_mem_sides member)
  obtain rfl := resolves.declaration
  have pairs := forall₂_zip_right (resolves.columns r.direction)
    (resolves.columns r.direction.opposite)
  refine ⟨resolves.table _, resolves.table _, named r.direction, pairs.imp ?_, ?_⟩
  · intro pair columns found
    exact found.imp Table.column?_eq_some_iff.mp Table.column?_eq_some_iff.mp
  · intro empty
    apply paired
    rw [← List.length_eq_zero_iff, pairs.length_eq]
    exact List.length_eq_zero_iff.mpr empty

private theorem isMirrored_of_mem_sides {r : Relationship} (member : r ∈ c.sides) :
    r.IsMirrored c where
  side := mem_sides_iff.mpr (join_mem_of_mem_sides member : r.join ∈ c.joins)
  source := r.source_reverse
  target := r.target_reverse
  pairs := r.columnPairs_reverse
  master := r.isToMaster_reverse

private theorem relationships_as_mapped (compiled : compile maps supply = (.ok c, after))
    (table : String) :
    c.relationships table = c.sides.filter fun r =>
      (r.join.declaration.names.on r.direction).isSome && r.source.name == table := by
  rw [(linked_of_compile compiled).listed, List.filter_filter]
  refine List.filter_congr fun r _ => ?_
  rw [Bool.and_comm, Relationship.isRuntime, ResolvedJoin.isRuntime, Option.not_isNone]

private theorem nodup_relationships (compiled : compile maps supply = (.ok c, after))
    (table : String) : ((c.relationships table).map (·.name)).Nodup :=
  Registry.nodup_under_of_foldlM_register (stages_of_compile compiled).registry table

theorem relationship?_eq_some_iff (compiled : compile maps supply = (.ok c, after))
    {table name : String} {r : Relationship} :
    c.relationship? table name = some r ↔ c.Maps table name r := by
  have listed : ∀ s, s ∈ c.relationships table ∧ s.name = name ↔ c.Maps table name s := by
    intro s
    rw [relationships_as_mapped compiled, List.mem_filter, Maps]
    constructor
    · rintro ⟨⟨side, mapped⟩, rfl⟩
      obtain ⟨isNamed, start⟩ := Bool.and_eq_true_iff.mp mapped
      obtain ⟨n, named⟩ := Option.isSome_iff_exists.mp isNamed
      refine ⟨side, by simpa using start, ?_⟩
      rw [named, (isDeclared_of_mem_sides compiled side).name n named]
    · rintro ⟨side, start, named⟩
      refine ⟨⟨side, ?_⟩, (isDeclared_of_mem_sides compiled side).name name named⟩
      simp [named, start]
  rw [← listed, relationship?]
  constructor
  · intro found
    exact ⟨List.mem_of_find?_eq_some found, by simpa using List.find?_some found⟩
  · rintro ⟨member, rfl⟩
    exact find?_of_nodup (nodup_relationships compiled table) member

/-- The sides of a compiled catalog are the directions of the declared joins in their order, and a
table lists those of them that start there and are mapped. No two of these share a name, so that a
name finds the one side that is mapped under it. -/
theorem lookups_as_declared (compiled : compile maps supply = (.ok c, after)) :
    c.sides.map (fun r => (r.join.number, r.join.declaration, r.direction)) =
        declaredSides (maps.flatMap (·.joins)) ∧
      (∀ table,
        c.relationships table = (c.sides.filter fun r =>
          (r.join.declaration.names.on r.direction).isSome && r.source.name == table) ∧
        ((c.relationships table).map (·.name)).Nodup) ∧
      (∀ table name r, c.relationship? table name = some r ↔
        c.Maps table name r ∧ ∀ s, c.Maps table name s → s = r) ∧
      ∀ r ∈ c.sides, r.IsDeclared c ∧ r.IsMirrored c := by
  refine ⟨sides_as_declared compiled, fun table => ?_, fun table name r => ?_, fun r member => ?_⟩
  · exact ⟨relationships_as_mapped compiled table, nodup_relationships compiled table⟩
  · rw [relationship?_eq_some_iff compiled]
    refine ⟨fun mapped => ⟨mapped, fun s other => ?_⟩, And.left⟩
    have found := (relationship?_eq_some_iff compiled).mpr mapped
    rw [(relationship?_eq_some_iff compiled).mpr other] at found
    exact Option.some.inj found
  · exact ⟨isDeclared_of_mem_sides compiled member, isMirrored_of_mem_sides member⟩

end Compiled

end Catalog

namespace Roster

def person : Table where
  name := "PERSON"
  columns := [.key "ID", { name := "BOSS_ID" }, { name := "SITE" }, { name := "TEAM" }]

/-- The second of the columns with one name is out of reach. -/
def team : Table where
  name := "TEAM"
  columns := [.key "SITE", .key "TEAM", { name := "SITE" }]

def people : DataMap where
  name := "people"
  tables := [person]
  joins :=
    [{ condition := .single ⟨"BOSS_ID", "ID"⟩
       entities := ⟨"PERSON", "PERSON"⟩
       names := ⟨some "boss", none⟩
       cardinality := .manyToOne }]

def teams : DataMap where
  name := "teams"
  tables := [team]
  joins :=
    [{ condition := .multi [⟨"TEAM", "TEAM"⟩, ⟨"SITE", "SITE"⟩]
       entities := ⟨"TEAM", "PERSON"⟩
       names := ⟨some "members", some "team"⟩
       cardinality := .oneToMany
       dependentKey := .left }]

def schema : Catalog :=
  match Catalog.compile [people, teams] {} with
  | (.ok c, _) => c
  | (.error _, _) => ⟨[], [], [], []⟩

private theorem compile_maps :
    Catalog.compile [people, teams] {} = (.ok schema, { issued := 1 }) := rfl

end Roster

namespace Catalog

open Roster

theorem lookups_as_declared_team :
    schema.sides.map (fun r => (r.name, r.source.name)) =
        [("boss", "PERSON"), ("runtimeRelationship0", "PERSON"), ("members", "TEAM"),
          ("team", "PERSON")] ∧
      (schema.relationships "PERSON").map (·.name) = ["boss", "team"] ∧
      schema.relationship? "PERSON" "runtimeRelationship0" = none ∧
      ∃ r, schema.relationship? "PERSON" "team" = some r ∧
        (∀ s, schema.Maps "PERSON" "team" s → s = r) ∧ r.IsDeclared schema ∧
        r.IsMirrored schema ∧ r.isToMaster = true ∧
        r.columnPairs = [({ name := "TEAM" }, .key "TEAM"), ({ name := "SITE" }, .key "SITE")] := by
  obtain ⟨-, -, exactly, each⟩ := lookups_as_declared compile_maps
  have found : ∃ r, schema.relationship? "PERSON" "team" = some r ∧ r.isToMaster = true ∧
      r.columnPairs = [({ name := "TEAM" }, .key "TEAM"), ({ name := "SITE" }, .key "SITE")] :=
    ⟨_, rfl, rfl, rfl⟩
  obtain ⟨r, here, master, pairs⟩ := found
  obtain ⟨mapped, only⟩ := (exactly "PERSON" "team" r).mp here
  obtain ⟨declared, mirrored⟩ := each r mapped.1
  exact ⟨by decide +kernel, by decide +kernel, by decide +kernel, r, here, only, declared, mirrored,
    master, pairs⟩

end Catalog

end ObjectRelational
