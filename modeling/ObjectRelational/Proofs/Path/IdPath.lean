import ObjectRelational.Proofs.Catalog.Linked
import ObjectRelational.Proofs.Path.Accounting
import ObjectRelational.Proofs.Path.Route

set_option autoImplicit false
set_option relaxedAutoImplicit false

/-!
Where id paths end. What stands in front of the name leads to a table of the catalog, and the path
is answered with the column of the name there, if there is one. That it is a key column is not
asked for.
-/

namespace ObjectRelational

theorem Catalog.mem_tables_of_tableFor {c : Catalog} {object : ObjectEntity} {table : Table}
    (mapped : c.tableFor object = .ok table) : table ∈ c.tables := by
  unfold tableFor requireTable at mapped
  split at mapped
  · rename_i found
    obtain rfl := Except.ok.inj mapped
    exact (Join.mem_of_findTable found).1
  · cases mapped

private theorem Catalog.Linked.mem_sides_of_resolveObjectPath {c : Catalog} (linked : c.Linked)
    {object : ObjectEntity} {path base : String} {resolution : Resolution} {r : Relationship}
    (resolves : c.resolveObjectPath object path base = .ok resolution)
    (last : resolution.destination.relationship? = some r) : r ∈ c.sides := by
  obtain ⟨_, -, _, -, followed⟩ := resolveObjectPath_eq_ok_iff.mp resolves
  obtain ⟨reached, s, _, named, -⟩ := ends_of_followObjects followed last
  exact (linked.mem_relationships.mp (List.mem_of_find?_eq_some named)).1

namespace Navigator

variable {n : Navigator} {object : ObjectEntity} {path front place : String} {table : Table}

/-- The table whose columns an id path can name, and the path to it: the own table of the object,
or the target of the relationship that the path in front of the name ends on. -/
inductive IdEnd (n : Navigator) (object : ObjectEntity) : String → String → Table → Prop
  | own {table : Table} : n.catalog.tableFor object = .ok table → IdEnd n object "" "" table
  | behind {front : String} {reached : Destination} {r : Relationship} : front ≠ "" →
      (n.objectPath object front none).1 = .ok reached → reached.relationship? = some r →
      IdEnd n object front reached.finalPath r.target

private theorem idEnd_own_iff :
    n.IdEnd object "" place table ↔ n.catalog.tableFor object = .ok table ∧ place = "" := by
  constructor
  · intro ends
    cases ends with
    | own mapped => exact ⟨mapped, rfl⟩
    | behind through => exact absurd rfl through
  · rintro ⟨mapped, rfl⟩
    exact .own mapped

private theorem idEnd_behind_iff (through : front ≠ "") :
    n.IdEnd object front place table ↔
      ∃ reached, (n.objectPath object front none).1 = .ok reached ∧
        ∃ r, reached.relationship? = some r ∧ reached.finalPath = place ∧ r.target = table := by
  constructor
  · intro ends
    cases ends with
    | own => exact absurd rfl through
    | @behind _ reached r _ led last => exact ⟨reached, led, r, last, rfl, rfl⟩
  · rintro ⟨reached, led, r, last, rfl, rfl⟩
    exact .behind through led last

theorem idPath_eq_ok_iff {d : Destination} :
    (n.idPath object path).1 = .ok d ↔
      ((Text.cutLastDot path).1 = "" → (Text.cutLastDot path).2 ≠ "") ∧
        ∃ place table, n.IdEnd object (Text.cutLastDot path).1 place table ∧
          ∃ column, table.column? (Text.cutLastDot path).2 = some column ∧
            ⟨place, .id column⟩ = d := by
  rcases n.idPath_cases object path with ⟨own, answer⟩ | ⟨through, rest⟩
  · simp only [answer, own, ownId_eq_ok_iff, idEnd_own_iff]
    simp
  · simp only [idEnd_behind_iff through]
    rcases rest with ⟨e, led, answer⟩ | ⟨reached, led, last, answer⟩ |
      ⟨reached, r, led, last, answer⟩
    · simp [answer, led]
    · simp [answer, led, last]
    · simp only [answer, led, map_eq_ok_iff, idColumn_eq_ok_iff]
      simp [last, through]

theorem idPath_fst_of_error {name : String} {e : MappingError}
    (cut : Text.cutLastDot path = (front, name)) (through : front ≠ "")
    (failed : (n.objectPath object front none).1 = .error e) :
    (n.idPath object path).1 = .error e := by
  obtain rfl : (Text.cutLastDot path).1 = front := by rw [cut]
  rcases n.idPath_cases object path with ⟨own, -⟩ | ⟨-, ⟨e', led, answer⟩ | rest⟩
  · exact absurd own through
  · rw [answer, ← led, failed]
  · rcases rest with ⟨reached, led, -⟩ | ⟨reached, r, led, -⟩
    all_goals
      rw [failed] at led
      cases led

private theorem IdEnd.mem_tables {c : Catalog} {asked : List Lookup}
    (ends : n.IdEnd object front place table) (linked : c.Linked)
    (accounted : n.Accounted c asked) : table ∈ c.tables := by
  cases ends with
  | own mapped =>
    rw [accounted.catalog] at mapped
    exact Catalog.mem_tables_of_tableFor mapped
  | behind _ led last =>
    have answer := (accounted.look (.object ⟨object, front, none⟩)).1
    obtain ⟨first, first_eq⟩ := Lookup.exists_getD_first?_object asked ⟨object, front, none⟩
    rw [Catalog.recalled, first_eq] at answer
    obtain ⟨resolution, resolves, rfl⟩ := map_eq_ok_iff.mp (answer.symm.trans led)
    exact linked.target_mem (linked.mem_sides_of_resolveObjectPath resolves last)

/-- Whatever was asked before, an id path that is answered ends at a table of the catalog, on the
column of the name that it has there; this is a key column exactly if it is marked as one. And
every column of the table is found in that way, a key column or not. -/
theorem idPath_ends_on_named_column {maps : List DataMap} {supply after : NameSupply} {c : Catalog}
    (compiled : Catalog.compile maps supply = (.ok c, after)) (history : List Request)
    (object : ObjectEntity) (path : String) :
    let n := (start c).askAll history
    let front := (Text.cutLastDot path).1
    let name := (Text.cutLastDot path).2
    let answer := (n.idPath object path).1
    (∀ d, answer = .ok d → ∃ table ∈ c.tables, n.IdEnd object front d.finalPath table ∧
      ∃ column ∈ table.columns, column.name = name ∧ d.terminal = .id column ∧
        ((∃ key ∈ table.keyColumns, d.terminal = .id key) ↔ column.primaryKey = true)) ∧
    ∀ place table column, n.IdEnd object front place table → table.column? name = some column →
      (front = "" → name ≠ "") → answer = .ok ⟨place, .id column⟩ := by
  intro n front name answer
  have linked := Catalog.linked_of_compile compiled
  have accounted := accounted_askAll c history
  constructor
  · intro d found
    obtain ⟨-, place, table, ends, column, hit, rfl⟩ := idPath_eq_ok_iff.mp found
    have member : column ∈ table.columns := List.mem_of_find?_eq_some hit
    have named : column.name = name := by simpa using List.find?_some hit
    refine ⟨table, ends.mem_tables linked accounted, ends, column, member, named, rfl, ?_⟩
    constructor
    · rintro ⟨key, is_key, same⟩
      obtain rfl := Terminal.id.inj same
      exact (List.mem_filter.mp is_key).2
    · intro marked
      exact ⟨column, List.mem_filter.mpr ⟨member, marked⟩, rfl⟩
  · intro place table column ends hit named
    exact idPath_eq_ok_iff.mpr ⟨named, place, table, ends, column, hit, rfl⟩

open Gallery

theorem idPath_ends_on_named_column_artist :
    let n := (start schema).askAll [.object painting "toArtist" none]
    Catalog.compile [map] {} = (.ok schema, {}) ∧
    ∃ d, (n.idPath painting "toArtist.ARTIST_ID").1 = .ok d ∧ d.finalPath = "toArtist" ∧
      ∃ table ∈ schema.tables, n.IdEnd painting "toArtist" "toArtist" table ∧
        ∃ key ∈ table.keyColumns, key.name = "ARTIST_ID" ∧ d.terminal = .id key := by
  intro n
  obtain ⟨d, found, place, terminal⟩ : ∃ d, (n.idPath painting "toArtist.ARTIST_ID").1 = .ok d ∧
      d.finalPath = "toArtist" ∧ d.terminal = .id (.key "ARTIST_ID") := ⟨_, rfl, rfl, rfl⟩
  have cut : (Text.cutLastDot "toArtist.ARTIST_ID").1 = "toArtist" := by decide +kernel
  obtain ⟨table, known, ends, column, -, -, same, is_key⟩ :=
    (idPath_ends_on_named_column compile_map [.object painting "toArtist" none] painting
      "toArtist.ARTIST_ID").1 d found
  obtain rfl := Terminal.id.inj (same.symm.trans terminal)
  obtain ⟨key, member, ends_on⟩ := is_key.mpr rfl
  obtain rfl := Terminal.id.inj (terminal.symm.trans ends_on)
  rw [cut, place] at ends
  exact ⟨compile_map, d, found, place, table, known, ends, _, member, rfl, terminal⟩

/-- The column that refers to the artist of a painting is no key column of the painting, and what
an artist is called is no key of the artist. -/
theorem idPath_ends_on_other_column :
    ∃ foreign name, ((start schema).idPath painting "ARTIST_ID").1 = .ok ⟨"", .id foreign⟩ ∧
      foreign ∈ paintingTable.columns ∧ foreign ∉ paintingTable.keyColumns ∧
      ((start schema).idPath painting "toArtist.ARTIST_NAME").1 = .ok ⟨"toArtist", .id name⟩ ∧
      name ∈ artistTable.columns ∧ name ∉ artistTable.keyColumns :=
  ⟨{ name := "ARTIST_ID" }, { name := "ARTIST_NAME" }, rfl, by decide +kernel, by decide +kernel,
    rfl, by decide +kernel, by decide +kernel⟩

end Navigator

end ObjectRelational
