import ObjectRelational.Proofs.Commit.DependencyGraph

set_option autoImplicit false
set_option relaxedAutoImplicit false

/-!
Joins that say the same in other words: from the other side, or with a single pair of columns in
the form for several. What they ask of the tables does not hang on the words, nor on the order in
which joins and tables are declared.
-/

namespace ObjectRelational

namespace JoinCondition

def mirror : JoinCondition → JoinCondition
  | single pair => single pair.swap
  | multi pairs => multi (pairs.map Sides.swap)

private theorem pairs_mirror (condition : JoinCondition) :
    condition.mirror.pairs = condition.pairs.map Sides.swap := by
  cases condition <;> rfl

end JoinCondition

namespace Cardinality

def mirror : Cardinality → Cardinality
  | oneToOne => oneToOne
  | oneToMany => manyToOne
  | manyToOne => oneToMany
  | manyToMany => manyToMany

private theorem isToMany_mirror (cardinality : Cardinality) (d : Direction) :
    cardinality.mirror.isToMany d = cardinality.isToMany d.opposite := by
  cases cardinality <;> cases d <;> rfl

end Cardinality

namespace DependentKey

def mirror : DependentKey → DependentKey
  | neither => neither
  | left => right
  | right => left

private theorem isToDependent_mirror (key : DependentKey) (d : Direction) :
    key.mirror.isToDependent d = key.isToDependent d.opposite := by
  cases key <;> cases d <;> rfl

private theorem isToMaster_mirror (key : DependentKey) (d : Direction) :
    key.mirror.isToMaster d = key.isToMaster d.opposite := by
  cases key <;> cases d <;> rfl

end DependentKey

namespace Join

/-- The join declared from the other side. -/
def mirror (j : Join) : Join where
  condition := j.condition.mirror
  entities := j.entities.swap
  names := j.names.swap
  cardinality := j.cardinality.mirror
  dependentKey := j.dependentKey.mirror
  dataMap := j.dataMap

/-- Joins that say the same: mirrored, written with one pair of columns among several, or declared
in another data map. -/
inductive Restates : Join → Join → Prop
  | refl (j : Join) : Restates j j
  | mirror (j : Join) : Restates j j.mirror
  | multi {j : Join} {pair : ColumnPair} (single : j.condition = .single pair) :
    Restates j { j with condition := .multi [pair] }
  | moved (j : Join) (map : String) : Restates j { j with dataMap := map }
  | symm {j k : Join} : Restates j k → Restates k j
  | trans {j k l : Join} : Restates j k → Restates k l → Restates j l

variable {j k : Join} {tables : List Table} {d : Direction} {t s : Table}

/-- A join asks in a direction for its target table before its source table. -/
structure Asks (j : Join) (tables : List Table) (d : Direction) (target source : Table) :
    Prop where
  leadsTo : findTable tables (j.entities.on d.opposite) = some target
  startsAt : findTable tables (j.entities.on d) = some source
  refers : (j.isToMany d = false ∧ j.isToDependent d = false) ∨ j.isToMaster d = true
  key : ∃ pair ∈ j.condition.pairs, ∃ column,
    target.column? (pair.on d.opposite) = some column ∧ column.primaryKey = true

private theorem asks_mirror_iff : j.mirror.Asks tables d t s ↔ j.Asks tables d.opposite t s := by
  have ends : ∀ d, j.mirror.entities.on d = j.entities.on d.opposite := Sides.on_swap j.entities
  have many : j.mirror.isToMany d = j.isToMany d.opposite :=
    j.cardinality.isToMany_mirror d
  have dependent : j.mirror.isToDependent d = j.isToDependent d.opposite :=
    j.dependentKey.isToDependent_mirror d
  have master : j.mirror.isToMaster d = j.isToMaster d.opposite :=
    j.dependentKey.isToMaster_mirror d
  have pairs : j.mirror.condition.pairs = j.condition.pairs.map Sides.swap :=
    j.condition.pairs_mirror
  constructor
  · rintro ⟨target, source, refers, swapped, member, key⟩
    rw [pairs] at member
    obtain ⟨pair, hpair, rfl⟩ := List.mem_map.mp member
    rw [ends] at target source
    rw [many, dependent, master] at refers
    rw [Sides.on_swap] at key
    exact ⟨target, source, refers, pair, hpair, key⟩
  · rintro ⟨target, source, refers, pair, member, key⟩
    rw [← ends] at target source
    rw [← many, ← dependent, ← master] at refers
    refine ⟨target, source, refers, pair.swap, pairs ▸ List.mem_map_of_mem member, ?_⟩
    rw [Sides.on_swap]
    exact key

private theorem Restates.asks_iff (restates : j.Restates k) :
    (∃ d, j.Asks tables d t s) ↔ ∃ d, k.Asks tables d t s := by
  induction restates with
  | refl => exact Iff.rfl
  | mirror j =>
    constructor
    · rintro ⟨d, asks⟩
      exact ⟨d.opposite, asks_mirror_iff.mpr (d.opposite_opposite.symm ▸ asks)⟩
    · rintro ⟨d, asks⟩
      exact ⟨d.opposite, asks_mirror_iff.mp asks⟩
  | @multi j pair single =>
    have pairs : j.condition.pairs = [pair] := by rw [single, JoinCondition.pairs]
    constructor
    · rintro ⟨d, target, source, refers, key⟩
      exact ⟨d, target, source, refers, pairs ▸ key⟩
    · rintro ⟨d, target, source, refers, key⟩
      exact ⟨d, target, source, refers, pairs.symm ▸ key⟩
  | moved j map =>
    constructor
    · rintro ⟨d, target, source, refers, key⟩
      exact ⟨d, target, source, refers, key⟩
    · rintro ⟨d, target, source, refers, key⟩
      exact ⟨d, target, source, refers, key⟩
  | symm _ ih => exact ih.symm
  | trans _ _ ih ih' => exact ih.trans ih'

private theorem Resolves.asks_iff {resolved : ResolvedJoin} (h : j.Resolves tables resolved) :
    j.Asks tables d t s ↔ (Relationship.mk resolved d).Constraining ∧
      (Relationship.mk resolved d).target = t ∧ (Relationship.mk resolved d).source = s := by
  have many : (Relationship.mk resolved d).isToMany = j.isToMany d :=
    congrArg (Join.isToMany · d) h.declaration
  have dependent : (Relationship.mk resolved d).isToDependent = j.isToDependent d :=
    congrArg (Join.isToDependent · d) h.declaration
  have master : (Relationship.mk resolved d).isToMaster = j.isToMaster d :=
    congrArg (Join.isToMaster · d) h.declaration
  constructor
  · rintro ⟨target, source, refers, pair, member, column, found, key⟩
    rw [h.table] at target source
    obtain rfl := Option.some.inj target
    obtain rfl := Option.some.inj source
    refine ⟨⟨?_, column, h.mem_columns_iff.mpr ⟨pair, member, found⟩, key⟩, rfl, rfl⟩
    rwa [many, dependent, master]
  · rintro ⟨⟨refers, column, member, key⟩, rfl, rfl⟩
    obtain ⟨pair, hpair, found⟩ := h.mem_columns_iff.mp member
    rw [many, dependent, master] at refers
    exact ⟨h.table _, h.table _, refers, pair, hpair, column, found, key⟩

/-- Lists of joins that say the same join by join, but for their order. -/
def Restated (joins joins' : List Join) : Prop :=
  ∃ ordered, joins.Perm ordered ∧ List.Forall₂ Restates ordered joins'

private theorem Restated.exists_asks_iff {joins joins' : List Join}
    (restated : Restated joins joins') :
    (∃ j ∈ joins, ∃ d, j.Asks tables d t s) ↔ ∃ j ∈ joins', ∃ d, j.Asks tables d t s := by
  obtain ⟨ordered, perm, pointwise⟩ := restated
  constructor
  · rintro ⟨j, member, asks⟩
    obtain ⟨k, hk, restates⟩ := exists_right_of_forall₂ pointwise (perm.mem_iff.mp member)
    exact ⟨k, hk, restates.asks_iff.mp asks⟩
  · rintro ⟨k, member, asks⟩
    obtain ⟨j, hj, restates⟩ := exists_left_of_forall₂ pointwise member
    exact ⟨j, perm.mem_iff.mpr hj, restates.asks_iff.mpr asks⟩

theorem findTable_congr {tables' : List Table} (distinct : (tables.map (·.name)).Nodup)
    (perm : tables.Perm tables') : findTable tables = findTable tables' := by
  have distinct' := (perm.map (·.name)).nodup_iff.mp distinct
  have found_iff : ∀ {tables : List Table}, (tables.map (·.name)).Nodup → ∀ {name t},
      findTable tables name = some t ↔ t ∈ tables ∧ t.name = name := by
    intro tables distinct name t
    constructor
    · exact mem_of_findTable
    · rintro ⟨member, rfl⟩
      exact findTable_name distinct member
  funext name
  apply Option.ext
  intro t
  rw [found_iff distinct, found_iff distinct', perm.mem_iff]

private theorem Asks.congr {tables' : List Table} (same : findTable tables = findTable tables')
    (asks : j.Asks tables d t s) : j.Asks tables' d t s :=
  ⟨same ▸ asks.leadsTo, same ▸ asks.startsAt, asks.refers, asks.key⟩

end Join

namespace Catalog

variable {maps maps' : List DataMap} {supply supply' after after' : NameSupply} {c c' : Catalog}

private theorem precedes_iff_asks (compiled : compile maps supply = (.ok c, after)) {t s : Table} :
    c.Precedes t s ↔ ∃ j ∈ maps.flatMap (·.joins), ∃ d, j.Asks c.tables d t s := by
  have resolves := resolves_of_resolveJoins (stages_of_compile compiled).joins
  constructor
  · rintro ⟨⟨resolved, d⟩, side, constraining, target, source⟩
    obtain ⟨j, declared, hj⟩ := exists_left_of_forall₂ resolves (join_mem_of_mem_sides side)
    exact ⟨j, declared, d, hj.asks_iff.mpr ⟨constraining, target, source⟩⟩
  · rintro ⟨j, declared, d, asks⟩
    obtain ⟨resolved, member, hj⟩ := exists_right_of_forall₂ resolves declared
    refine ⟨⟨resolved, d⟩, List.mem_flatMap.mpr ⟨resolved, member, ?_⟩, hj.asks_iff.mp asks⟩
    cases d <;> simp [sidesOf]

theorem precedes_congr (compiled : compile maps supply = (.ok c, after))
    (compiled' : compile maps' supply' = (.ok c', after'))
    (tables : (maps.flatMap (·.tables)).Perm (maps'.flatMap (·.tables)))
    (joins : Join.Restated (maps.flatMap (·.joins)) (maps'.flatMap (·.joins))) {t s : Table} :
    c.Precedes t s ↔ c'.Precedes t s := by
  obtain ⟨gathered, distinct⟩ := of_gatherTables (stages_of_compile compiled).tables
  obtain ⟨gathered', -⟩ := of_gatherTables (stages_of_compile compiled').tables
  rw [← gathered, ← gathered'] at tables
  have same := Join.findTable_congr distinct tables
  rw [precedes_iff_asks compiled, precedes_iff_asks compiled', joins.exists_asks_iff]
  constructor
  · rintro ⟨j, declared, d, asks⟩
    exact ⟨j, declared, d, asks.congr same⟩
  · rintro ⟨j, declared, d, asks⟩
    exact ⟨j, declared, d, asks.congr same.symm⟩

end Catalog

end ObjectRelational
