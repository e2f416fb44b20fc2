import ObjectRelational.Proofs.Catalog.Resolved

set_option autoImplicit false
set_option relaxedAutoImplicit false

/-!
What the look-ups of a compiled catalog find. A table lists exactly the mapped directions that
start at it, the matched columns of a join are columns of its tables, and the tables and targets
that objects name are declared.
-/

namespace ObjectRelational

namespace Registry

theorem under_of_register {registry more : Registry} {r : Relationship}
    (registered : registry.register r = .ok more) (table : String) :
    more.under table = registry.under table ++ [r].filter (·.source.name == table) := by
  unfold register at registered
  split at registered
  · cases registered
  · obtain rfl := Except.ok.inj registered
    by_cases same : r.source.name = table
    · subst same
      simp [under_insert_self]
    · simp [under_insert_of_ne registry r (Ne.symm same), same]

private theorem under_of_foldlM_register {rs : List Relationship} {registry all : Registry}
    (registered : rs.foldlM register registry = .ok all) (table : String) :
    all.under table = registry.under table ++ rs.filter (·.source.name == table) := by
  induction rs generalizing registry with
  | nil =>
    obtain rfl := Except.ok.inj registered
    exact (List.append_nil _).symm
  | cons r rs ih =>
    rw [List.foldlM_cons] at registered
    obtain ⟨more, first, rest⟩ := bind_eq_ok_iff.mp registered
    have split : (r :: rs).filter (·.source.name == table) =
        [r].filter (·.source.name == table) ++ rs.filter (·.source.name == table) :=
      List.filter_append [r] rs
    rw [ih rest, under_of_register first, List.append_assoc, split]

end Registry

namespace Catalog

theorem of_gatherObjects {maps : List DataMap} {tables : List Table} {objects : List ObjectEntity}
    (gathered : gatherObjects maps tables = .ok objects) :
    objects = maps.flatMap (·.objects) ∧ (objects.map (·.name)).Nodup ∧
      ∀ o ∈ objects, (Join.findTable tables o.table).isSome = true := by
  have all := foldlM_ok_induction
    (P := fun items objects => objects = items.map (·.2) ∧ (objects.map (·.name)).Nodup ∧
      ∀ o ∈ objects, (Join.findTable tables o.table).isSome = true)
    ?_ gathered ⟨rfl, List.nodup_nil, nofun⟩
  · rw [List.map_flatMap] at all
    simpa only [List.map_map, Function.comp_def, List.map_id'] using all
  · rintro done objects ⟨map, object⟩ more accepted ⟨rfl, distinct, backed⟩
    dsimp only at accepted
    split at accepted
    · cases accepted
    · rename_i new
      split at accepted
      · cases accepted
      · rename_i found
        obtain rfl := Except.ok.inj accepted
        refine ⟨?_, nodup_of_new distinct new, ?_⟩
        · rw [List.map_append, List.map_singleton]
        · intro o member
          rcases List.mem_append.mp member with member | member
          · exact backed o member
          · rw [List.mem_singleton.mp member]
            exact Option.isSome_iff_ne_none.mpr (by simpa using found)

private theorem of_checkTargets {objects : List ObjectEntity}
    (checked : checkTargets objects = .ok ()) :
    ∀ o ∈ objects, ∀ r ∈ o.relationships, ∃ target ∈ objects, target.name = r.target := by
  intro o ho r hr
  have item : (o.name, r) ∈ objects.flatMap fun o => o.relationships.map (o.name, ·) :=
    List.mem_flatMap.mpr ⟨o, ho, List.mem_map_of_mem hr⟩
  have passed := forM_ok_iff.mp checked _ item
  dsimp only at passed
  split at passed
  · rename_i declared
    obtain ⟨target, htarget, same⟩ := List.any_eq_true.mp declared
    exact ⟨target, htarget, by simpa using same⟩
  · cases passed

/-- What the look-ups of a catalog find. -/
structure Linked (c : Catalog) : Prop extends Resolved c where
  /-- A table lists the mapped directions that start at it, in the order of the joins. -/
  listed : ∀ table, c.relationships table =
    (c.sides.filter fun r => !r.isRuntime).filter (·.source.name == table)
  columns : ∀ j ∈ c.joins, ∀ d, ∀ column ∈ j.columns.on d, column ∈ (j.tables.on d).columns
  objectsDistinct : (c.objects.map (·.name)).Nodup
  backed : ∀ o ∈ c.objects, ∃ t ∈ c.tables, c.tableFor o = .ok t
  targeted : ∀ o ∈ c.objects, ∀ r ∈ o.relationships, ∃ target ∈ c.objects, target.name = r.target

theorem linked_of_compile {maps : List DataMap} {supply after : NameSupply} {c : Catalog}
    (compiled : compile maps supply = (.ok c, after)) : c.Linked := by
  have stages := stages_of_compile compiled
  obtain ⟨-, distinct, backed⟩ := of_gatherObjects stages.objects
  refine ⟨resolved_of_compile compiled, ?_, fun r member => ?_, distinct, ?_,
    of_checkTargets stages.targets⟩
  · intro table
    exact Registry.under_of_foldlM_register stages.registry table
  · obtain ⟨j, -, resolves⟩ :=
      exists_left_of_forall₂ (resolves_of_resolveJoins stages.joins) member
    exact resolves.column_mem
  · intro o member
    obtain ⟨t, found⟩ := Option.isSome_iff_exists.mp (backed o member)
    refine ⟨t, (Join.mem_of_findTable found).1, ?_⟩
    simp only [tableFor, requireTable, table?, found]

namespace Linked

variable {c : Catalog}

theorem object_eq_of_name (h : c.Linked) {o p : ObjectEntity} (ho : o ∈ c.objects)
    (hp : p ∈ c.objects) (same : o.name = p.name) : o = p := by
  have found := find?_of_nodup h.objectsDistinct ho
  rw [same, find?_of_nodup h.objectsDistinct hp] at found
  exact (Option.some.inj found).symm

theorem mem_relationships (h : c.Linked) {table : String} {r : Relationship} :
    r ∈ c.relationships table ↔ r ∈ c.sides ∧ r.isRuntime = false ∧ r.source.name = table := by
  rw [h.listed, List.mem_filter, List.mem_filter]
  simp [and_assoc]

theorem forall_relationships (h : c.Linked) {P : Relationship → Prop}
    (sides : ∀ r ∈ c.sides, P r) : ∀ table, ∀ r ∈ c.relationships table, P r :=
  fun _ r member => sides r (h.mem_relationships.mp member).1

theorem of_relationship? (h : c.Linked) {t : Table} (ht : t ∈ c.tables) {name : String}
    {r : Relationship} (found : c.relationship? t.name name = some r) :
    r ∈ c.relationships t.name ∧ r.name = name ∧ r.source = t ∧ r.target ∈ c.tables ∧
      ∀ column ∈ r.sourceColumns, column ∈ t.columns := by
  have member := List.mem_of_find?_eq_some found
  obtain ⟨side, -, start⟩ := h.mem_relationships.mp member
  have source : r.source = t := h.eq_of_name (h.source_mem side) ht start
  refine ⟨member, by simpa using List.find?_some found, source, h.target_mem side, ?_⟩
  rw [← source]
  exact h.columns r.join (join_mem_of_mem_sides side) r.direction

theorem target_of_relationship? (h : c.Linked) {t : Table} (ht : t ∈ c.tables) {name : String}
    {r : Relationship} (found : c.relationship? t.name name = some r) : r.target ∈ c.tables := by
  obtain ⟨-, -, -, target, -⟩ := h.of_relationship? ht found
  exact target

theorem sourceColumns_of_relationship? (h : c.Linked) {t : Table} (ht : t ∈ c.tables)
    {name : String} {r : Relationship} (found : c.relationship? t.name name = some r) :
    ∀ column ∈ r.sourceColumns, column ∈ t.columns := by
  obtain ⟨-, -, -, -, columns⟩ := h.of_relationship? ht found
  exact columns

end Linked

end Catalog

end ObjectRelational
