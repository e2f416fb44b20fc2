import ObjectRelational.Proofs.Data.List
import ObjectRelational.Schema.DataMap

set_option autoImplicit false
set_option relaxedAutoImplicit false

/-!
Which schemas are well formed, as conditions on their declarations, and what violates these
conditions in one that is not. Violations are listed in order: tables, objects, the targets of
object relationships, joins, and last the mapped directions of the joins, each as declared.
-/

namespace ObjectRelational

namespace Join

/-- The mapped directions, left first: the table where each starts, and its name. -/
def namedSides (j : Join) : List (String × String) :=
  [Direction.left, .right].filterMap fun d => (j.names.on d).map (j.entities.on d, ·)

/-- Whether both tables are declared, each with the columns that are matched on its side. -/
def IsFoundIn (j : Join) (tables : List Table) : Prop :=
  ∀ d, ∃ t ∈ tables, t.name = j.entities.on d ∧
    ∀ pair ∈ j.condition.pairs, ∃ column ∈ t.columns, column.name = pair.on d

instance {p : Direction → Prop} [DecidablePred p] : Decidable (∀ d, p d) :=
  decidable_of_iff (p .left ∧ p .right) ⟨fun ⟨left, right⟩ d => by cases d <;> assumption,
    fun all => ⟨all .left, all .right⟩⟩

instance (j : Join) (tables : List Table) : Decidable (j.IsFoundIn tables) :=
  inferInstanceAs (Decidable (∀ _, _))

end Join

/-- What a schema can be refused for. -/
inductive Violation
  /-- A table with the name of an earlier one. -/
  | repeatedTable
  /-- An object entity with the name of an earlier one. -/
  | repeatedObject
  /-- An object entity whose table is not declared. -/
  | unbackedObject
  /-- A relationship to an object entity that is not declared. -/
  | unknownTarget
  /-- A join without column pairs. -/
  | emptyCondition
  /-- A join of tables or columns that are not declared. -/
  | unresolvedJoin
  /-- A mapped direction with the source table and the name of an earlier one. -/
  | repeatedSide
  deriving Repr, DecidableEq

namespace Violation

def kind : Violation → ErrorKind
  | repeatedTable | repeatedObject | emptyCondition | repeatedSide => .configuration
  | unbackedObject | unknownTarget | unresolvedJoin => .schemaResolution

def against (v : Violation) (condition : Prop) [Decidable condition] : List Violation :=
  if condition then [] else [v]

@[simp] theorem against_eq_nil_iff {v : Violation} {condition : Prop} [Decidable condition] :
    v.against condition = [] ↔ condition := by
  unfold against
  split <;> simp_all

def ofTable (earlier : List Table) (t : Table) : List Violation :=
  repeatedTable.against (∀ s ∈ earlier, s.name ≠ t.name)

def ofObject (tables : List Table) (earlier : List ObjectEntity) (o : ObjectEntity) :
    List Violation :=
  repeatedObject.against (∀ p ∈ earlier, p.name ≠ o.name) ++
    unbackedObject.against (∃ t ∈ tables, t.name = o.table)

def ofTarget (objects : List ObjectEntity) (r : ObjectRelationship) : List Violation :=
  unknownTarget.against (∃ o ∈ objects, o.name = r.target)

def ofJoin (tables : List Table) (j : Join) : List Violation :=
  emptyCondition.against (j.condition.pairs ≠ []) ++
    unresolvedJoin.against (j.IsFoundIn tables)

def ofSide (earlier : List (String × String)) (side : String × String) : List Violation :=
  repeatedSide.against (∀ s ∈ earlier, s ≠ side)

end Violation

namespace Catalog

/-- A schema that is free of violations. -/
structure WellFormed (maps : List DataMap) : Prop where
  tables : ((maps.flatMap (·.tables)).map (·.name)).Nodup
  objects : ((maps.flatMap (·.objects)).map (·.name)).Nodup
  backed : ∀ o ∈ maps.flatMap (·.objects), ∃ t ∈ maps.flatMap (·.tables), t.name = o.table
  targeted : ∀ o ∈ maps.flatMap (·.objects), ∀ r ∈ o.relationships,
    ∃ target ∈ maps.flatMap (·.objects), target.name = r.target
  paired : ∀ j ∈ maps.flatMap (·.joins), j.condition.pairs ≠ []
  found : ∀ j ∈ maps.flatMap (·.joins), j.IsFoundIn (maps.flatMap (·.tables))
  sides : ((maps.flatMap (·.joins)).flatMap Join.namedSides).Nodup

def tableViolations (tables : List Table) : List Violation :=
  (withEarlier [] tables).flatMap fun p => Violation.ofTable p.1 p.2

def objectViolations (tables : List Table) (objects : List ObjectEntity) : List Violation :=
  (withEarlier [] objects).flatMap fun p => Violation.ofObject tables p.1 p.2

def targetViolations (objects : List ObjectEntity) : List Violation :=
  (objects.flatMap (·.relationships)).flatMap (Violation.ofTarget objects)

def joinViolations (tables : List Table) (joins : List Join) : List Violation :=
  joins.flatMap (Violation.ofJoin tables)

def sideViolations (joins : List Join) : List Violation :=
  (withEarlier [] (joins.flatMap Join.namedSides)).flatMap fun p => Violation.ofSide p.1 p.2

def violations (maps : List DataMap) : List Violation :=
  tableViolations (maps.flatMap (·.tables)) ++
    (objectViolations (maps.flatMap (·.tables)) (maps.flatMap (·.objects)) ++
      (targetViolations (maps.flatMap (·.objects)) ++
        (joinViolations (maps.flatMap (·.tables)) (maps.flatMap (·.joins)) ++
          sideViolations (maps.flatMap (·.joins)))))

private theorem tableViolations_eq_nil_iff {tables : List Table} :
    tableViolations tables = [] ↔ (tables.map (·.name)).Nodup := by
  simp only [tableViolations, List.flatMap_eq_nil_iff, Violation.ofTable,
    Violation.against_eq_nil_iff]
  exact forall_withEarlier_nil_iff.trans List.pairwise_map.symm

private theorem objectViolations_eq_nil_iff {tables : List Table} {objects : List ObjectEntity} :
    objectViolations tables objects = [] ↔
      (objects.map (·.name)).Nodup ∧ ∀ o ∈ objects, ∃ t ∈ tables, t.name = o.table := by
  simp only [objectViolations, List.flatMap_eq_nil_iff, Violation.ofObject,
    List.append_eq_nil_iff, Violation.against_eq_nil_iff, forall_and]
  exact and_congr (forall_withEarlier_nil_iff.trans List.pairwise_map.symm)
    (forall_snd_withEarlier_iff (Q := fun o : ObjectEntity => ∃ t ∈ tables, t.name = o.table))

private theorem targetViolations_eq_nil_iff {objects : List ObjectEntity} :
    targetViolations objects = [] ↔
      ∀ o ∈ objects, ∀ r ∈ o.relationships, ∃ target ∈ objects, target.name = r.target := by
  simp only [targetViolations, List.flatMap_eq_nil_iff, Violation.ofTarget,
    Violation.against_eq_nil_iff, List.forall_mem_flatMap]

private theorem joinViolations_eq_nil_iff {tables : List Table} {joins : List Join} :
    joinViolations tables joins = [] ↔
      (∀ j ∈ joins, j.condition.pairs ≠ []) ∧ ∀ j ∈ joins, j.IsFoundIn tables := by
  simp only [joinViolations, List.flatMap_eq_nil_iff, Violation.ofJoin, List.append_eq_nil_iff,
    Violation.against_eq_nil_iff, forall_and]

theorem sideViolations_eq_nil_iff {joins : List Join} :
    sideViolations joins = [] ↔ (joins.flatMap Join.namedSides).Nodup := by
  simp only [sideViolations, List.flatMap_eq_nil_iff, Violation.ofSide,
    Violation.against_eq_nil_iff]
  exact forall_withEarlier_nil_iff

/-- A schema has no violations just where it is well formed. -/
theorem violations_eq_nil_iff {maps : List DataMap} : violations maps = [] ↔ WellFormed maps := by
  simp only [violations, List.append_eq_nil_iff, tableViolations_eq_nil_iff,
    objectViolations_eq_nil_iff, targetViolations_eq_nil_iff, joinViolations_eq_nil_iff,
    sideViolations_eq_nil_iff]
  constructor
  · rintro ⟨tables, ⟨objects, backed⟩, targeted, ⟨paired, found⟩, sides⟩
    exact ⟨tables, objects, backed, targeted, paired, found, sides⟩
  · intro h
    exact ⟨h.tables, ⟨h.objects, h.backed⟩, h.targeted, ⟨h.paired, h.found⟩, h.sides⟩

/-- A join of a table with itself has to name its two directions apart. -/
example : violations [{
    name := "staff"
    tables := [{ name := "PERSON", columns := [.key "ID", { name := "MANAGER_ID" }] }]
    joins := [{
      condition := .single ⟨"MANAGER_ID", "ID"⟩
      entities := ⟨"PERSON", "PERSON"⟩
      names := ⟨some "colleague", some "colleague"⟩
      cardinality := .manyToOne }] }] = [.repeatedSide] := by decide

end Catalog

end ObjectRelational
