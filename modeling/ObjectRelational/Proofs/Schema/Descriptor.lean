import ObjectRelational.Proofs.Json.Record
import ObjectRelational.Proofs.Schema.JoinOrder
import ObjectRelational.Schema.Descriptor

set_option autoImplicit false
set_option relaxedAutoImplicit false

/-!
Descriptors are read back. The value of each declaration is read as the declaration, except that
a join does not name its data map and that a data map writes its joins in order.
-/

namespace ObjectRelational

open Json

private theorem Column.describes (c : Column) : c.toJson.Describes ofJson? c := by
  apply Value.describes_record
  · simp
  · simp
  · intro fields
    simp only [List.map_cons, List.map_nil] at fields
    simp [ofJson?, fields]

private theorem Table.describes (t : Table) : t.toJson.Describes ofJson? t := by
  have columns := Value.describes_list Column.describes t.columns
  apply Value.describes_record
  · simp [columns.writable]
  · simp
  · intro fields
    simp only [List.map_cons, List.map_nil] at fields
    simp [ofJson?, fields, columns.read]

private theorem ObjectAttribute.describes (a : ObjectAttribute) : a.toJson.Describes ofJson? a := by
  apply Value.describes_record
  · simp
  · simp
  · intro fields
    simp only [List.map_cons, List.map_nil] at fields
    simp [ofJson?, fields]

private theorem ObjectRelationship.describes (r : ObjectRelationship) :
    r.toJson.Describes ofJson? r := by
  apply Value.describes_record
  · simp
  · simp
  · intro fields
    simp only [List.map_cons, List.map_nil] at fields
    simp [ofJson?, fields]

private theorem ObjectEntity.describes (e : ObjectEntity) : e.toJson.Describes ofJson? e := by
  have attributes := Value.describes_list ObjectAttribute.describes e.attributes
  have relationships := Value.describes_list ObjectRelationship.describes e.relationships
  apply Value.describes_record
  · simp [attributes.writable, relationships.writable]
  · simp
  · intro fields
    simp only [List.map_cons, List.map_nil] at fields
    simp [ofJson?, fields, attributes.read, relationships.read]

private theorem Sides.describes (pair : ColumnPair) : (toJson pair).Describes ofJson? pair := by
  apply Value.describes_record
  · simp
  · simp
  · intro fields
    simp only [List.map_cons, List.map_nil] at fields
    simp [ofJson?, fields]

private theorem Sides.describes_two {α : Type} {write : α → Value} {read : Value → Option α}
    (each : ∀ a, (write a).Describes read a) (sides : Sides α) :
    (Value.array [write sides.left, write sides.right]).Describes (two? read) sides := by
  obtain ⟨writable, both⟩ := Value.describes_two each sides.left sides.right
  refine ⟨writable, ?_⟩
  rw [two?, both, Option.map_some]

private theorem JoinCondition.describes (condition : JoinCondition) :
    condition.toJson.Describes ofJson? condition := by
  cases condition with
  | single pair =>
    have one := Sides.describes pair
    refine ⟨Value.isWritable_record (by simp [one.writable]), ?_⟩
    simp [ofJson?, toJson, one.read]
  | multi pairs =>
    have all := Value.describes_list Sides.describes pairs
    refine ⟨Value.isWritable_record (by simp [all.writable]), ?_⟩
    simp [ofJson?, toJson, all.read]

private theorem Cardinality.describes (k : Cardinality) :
    (Value.ofText k.tag).Describes ofJson? k := by
  refine ⟨Value.isWritable_ofText _, ?_⟩
  rw [ofJson?, Value.caseName?_ofText]
  cases k <;> rfl

private theorem DependentKey.describes (k : DependentKey) :
    (Value.ofText k.tag).Describes ofJson? k := by
  refine ⟨Value.isWritable_ofText _, ?_⟩
  rw [ofJson?, Value.caseName?_ofText]
  cases k <;> rfl

namespace Join

private theorem describes_nameJson (name : Option String) :
    (nameJson name).Describes Value.nullableText? name := by
  cases name with
  | none => exact ⟨.null, rfl⟩
  | some name =>
    exact ⟨Value.isWritable_ofText name, congrArg (·.map some) (Value.text?_ofText name)⟩

private theorem describes (j : Join) : j.toJson.Describes ofJson? { j with dataMap := "" } := by
  have condition := j.condition.describes
  have entities := Sides.describes_two Value.describes_ofText j.entities
  have names := Sides.describes_two describes_nameJson j.names
  have cardinality := j.cardinality.describes
  have dependentKey := j.dependentKey.describes
  apply Value.describes_record
  · simp [condition.writable, entities.writable, names.writable]
  · simp
  · intro fields
    simp only [List.map_cons, List.map_nil] at fields
    simp [ofJson?, fields, condition.read, entities.read, names.read, cardinality.read,
      dependentKey.read]

end Join

namespace DataMap

/-- The map with its joins in the order in which they are written, each its own. -/
def canonical (m : DataMap) : DataMap := { m with joins := m.orderedJoins.map m.own }

private theorem describes (m : DataMap) : m.toJson.Describes ofJson? m.canonical := by
  have tables := Value.describes_list Table.describes m.tables
  have objects := Value.describes_list ObjectEntity.describes m.objects
  have joins := Value.describes_array fun j (_ : j ∈ m.orderedJoins) => j.describes
  apply Value.describes_record
  · simp [tables.writable, objects.writable, joins.writable]
  · simp
  · intro fields
    simp only [List.map_cons, List.map_nil] at fields
    simp [ofJson?, fields, tables.read, objects.read, joins.read, canonical, own]

private theorem orderedJoins_canonical {m : DataMap}
    (alike : ∀ a ∈ m.joins, ∀ b ∈ m.joins, a.NamedAlike b) :
    m.canonical.orderedJoins = m.canonical.joins := by
  -- the order does not hang on the data maps, so it is there already
  apply Order.stableSort_of_pairwise
  exact List.pairwise_map.mpr (pairwise_orderedJoins alike)

private theorem toJson_canonical {m : DataMap}
    (alike : ∀ a ∈ m.joins, ∀ b ∈ m.joins, a.NamedAlike b) : m.canonical.toJson = m.toJson := by
  have joins : m.canonical.orderedJoins.map Join.toJson = m.orderedJoins.map Join.toJson := by
    rw [orderedJoins_canonical alike]
    exact List.map_map
  rw [toJson, toJson, joins]
  rfl

/-- What is written for a map is read as the map, but for its joins: they come in the order in
which they are written, and each names the map as its own. Writing that gives the same text. -/
theorem read_render {m : DataMap} (alike : ∀ a ∈ m.joins, ∀ b ∈ m.joins, a.NamedAlike b) :
    ∃ joins, Join.StablySorted m.joins joins ∧
      DataMap.read m.render =
        .ok { m with joins := joins.map fun j => { j with dataMap := m.name } } ∧
      DataMap.render { m with joins := joins.map fun j => { j with dataMap := m.name } } =
        m.render := by
  obtain ⟨writable, read⟩ := m.describes
  have document : Value.parse? m.render = some m.toJson := writable.parse?_pretty
  refine ⟨m.orderedJoins, stablySorted_orderedJoins alike, ?_, ?_⟩
  · rw [DataMap.read, readDocument, document, Option.bind_some, read]
    rfl
  · exact congrArg Value.pretty (toJson_canonical alike)

def library : DataMap where
  name := "the \"library\"\n"
  tables := [{ name := "LOAN", columns := [.key "ID", { name := "BOOK\\ID", mandatory := true }] }]
  objects := [{ name := "Loan", table := "LOAN", attributes := [⟨"naïve\x01", "BOOK\\ID"⟩] }]
  joins :=
    [{ condition := .multi [⟨"BOOK\\ID", "ID"⟩, ⟨"SHELF", "SHELF"⟩]
       entities := ⟨"LOAN", "BOOK"⟩
       names := ⟨some "toBook", none⟩
       cardinality := .manyToOne },
     { condition := .single ⟨"ID", "ID"⟩
       entities := ⟨"LOAN", "FINE"⟩
       names := ⟨some "fine", some "loan"⟩
       cardinality := .oneToOne
       dependentKey := .left
       dataMap := "elsewhere" },
     { condition := .single ⟨"ID", "SHELF"⟩
       entities := ⟨"BOOK", "SHELF"⟩
       names := ⟨none, some "books"⟩
       cardinality := .manyToOne }]

theorem read_render_library :
    (∀ a ∈ library.joins, ∀ b ∈ library.joins, a.NamedAlike b) ∧
      ∃ joins, Join.StablySorted library.joins joins ∧
        DataMap.read library.render =
          .ok { library with joins := joins.map fun j => { j with dataMap := library.name } } ∧
        DataMap.render
          { library with joins := joins.map fun j => { j with dataMap := library.name } } =
            library.render := by
  have alike : ∀ a ∈ library.joins, ∀ b ∈ library.joins, a.NamedAlike b := by decide
  exact ⟨alike, read_render alike⟩

end DataMap

end ObjectRelational
