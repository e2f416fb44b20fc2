import ObjectRelational.Proofs.Catalog.Linked
import ObjectRelational.Proofs.Catalog.WellFormed

set_option autoImplicit false
set_option relaxedAutoImplicit false

/-!
A compilation accepts the schemas that are well formed, and refuses any other with an error of the
kind of its first violation. The passes of a compilation are compared with the parts of the list
of violations one by one.
-/

namespace ObjectRelational

/-- A check succeeds where there are no violations, and otherwise fails with the kind of the
first. -/
def Reports {α : Type} (result : Except MappingError α) (violations : List Violation) : Prop :=
  match result with
  | .ok _ => violations = []
  | .error e => violations.head?.map Violation.kind = some e.kind

namespace Reports

variable {α β γ : Type}

theorem exists_ok_iff {result : Except MappingError α} {vs : List Violation}
    (h : Reports result vs) : (∃ a, result = .ok a) ↔ vs = [] := by
  cases result with
  | ok a => exact iff_of_true ⟨a, rfl⟩ h
  | error e =>
    refine iff_of_false nofun ?_
    rintro rfl
    cases h

private theorem exists_error_iff {result : Except MappingError α} {vs : List Violation}
    (h : Reports result vs) (kind : ErrorKind) :
    (∃ e, result = .error e ∧ e.kind = kind) ↔ vs.head?.map Violation.kind = some kind := by
  cases result with
  | ok a =>
    obtain rfl : vs = [] := h
    simp
  | error e =>
    have first : vs.head?.map Violation.kind = some e.kind := h
    simp [first]

theorem bind {first : Except MappingError α} {next : α → Except MappingError β}
    {vs ws : List Violation} (one : Reports first vs)
    (rest : ∀ a, first = .ok a → Reports (next a) ws) : Reports (first >>= next) (vs ++ ws) := by
  cases first with
  | ok a =>
    obtain rfl : vs = [] := one
    exact rest a rfl
  | error e =>
    have failed : vs.head?.map Violation.kind = some e.kind := one
    cases vs with
    | nil => cases failed
    | cons v vs => exact failed

private theorem map {result : Except MappingError α} {f : α → β} {vs : List Violation}
    (h : Reports result vs) : Reports (result.map f) vs := by
  cases result <;> exact h

private theorem ite {bad condition : Prop} [Decidable bad] [Decidable condition] {v : Violation}
    {e : MappingError} {result : Except MappingError α} {vs : List Violation}
    (same : bad ↔ ¬ condition) (kind : v.kind = e.kind) (rest : Reports result vs) :
    Reports (if bad then .error e else result) (v.against condition ++ vs) := by
  by_cases holds : condition
  · rw [if_neg (by simpa [same] using holds), Violation.against, if_pos holds]
    exact rest
  · rw [if_pos (same.mpr holds), Violation.against, if_neg holds]
    exact congrArg some kind

private theorem refuse {bad condition : Prop} [Decidable bad] [Decidable condition] {v : Violation}
    {e : MappingError} {a : α} (same : bad ↔ ¬ condition) (kind : v.kind = e.kind) :
    Reports (if bad then .error e else .ok a) (v.against condition) := by
  rw [← List.append_nil (v.against condition)]
  exact ite same kind rfl

private theorem foldlM_behind {step : β → α → Except MappingError β} {view : α → γ}
    {found : List γ → γ → List Violation} {P : List α → β → Prop}
    (one : ∀ {done b a}, P done b → Reports (step b a) (found (done.map view) (view a)))
    (preserved : ∀ {done b a b'}, step b a = .ok b' → P done b → P (done ++ [a]) b')
    {items done : List α} {b : β} (built : P done b) :
    Reports (items.foldlM step b)
      ((withEarlier (done.map view) (items.map view)).flatMap fun p => found p.1 p.2) := by
  induction items generalizing done b with
  | nil => rfl
  | cons a items ih =>
    rw [List.foldlM_cons]
    refine (one built).bind fun b' accepted => ?_
    have later := ih (preserved accepted built)
    rwa [List.map_append] at later

/-- A check of the items of a list against those in front of them, as far as they can be read off
what was built from these. -/
private theorem foldlM {step : β → α → Except MappingError β} (view : α → γ)
    {found : List γ → γ → List Violation} (P : List α → β → Prop)
    (one : ∀ {done b a}, P done b → Reports (step b a) (found (done.map view) (view a)))
    (preserved : ∀ {done b a b'}, step b a = .ok b' → P done b → P (done ++ [a]) b')
    {items : List α} {b : β} (built : P [] b) :
    Reports (items.foldlM step b)
      ((withEarlier [] (items.map view)).flatMap fun p => found p.1 p.2) :=
  foldlM_behind one preserved built

private theorem forM {check : α → Except MappingError Unit} {found : α → List Violation}
    {items : List α} (one : ∀ a ∈ items, Reports (check a) (found a)) :
    Reports (items.forM check) (items.flatMap found) := by
  induction items with
  | nil => rfl
  | cons a items ih =>
    exact (one a List.mem_cons_self).bind fun _ _ =>
      ih fun b member => one b (List.mem_cons_of_mem a member)

end Reports

namespace Join

private theorem isNone_findTable_iff {tables : List Table} {name : String} :
    (findTable tables name).isNone = true ↔ ¬ ∃ t ∈ tables, t.name = name := by
  simp [findTable]

private theorem kind_of_resolveTable {j : Join} {tables : List Table} {d : Direction}
    {e : MappingError} (failed : j.resolveTable tables d = .error e) :
    e.kind = .schemaResolution ∧ ¬ ∃ t ∈ tables, t.name = j.entities.on d := by
  unfold resolveTable at failed
  split at failed
  · cases failed
  · rename_i missing
    obtain rfl := Except.error.inj failed
    exact ⟨rfl, isNone_findTable_iff.mp (by rw [missing]; rfl)⟩

private theorem kind_of_resolveColumn {t : Table} {name : String} {e : MappingError}
    (failed : resolveColumn t name = .error e) :
    e.kind = .schemaResolution ∧ ¬ ∃ column ∈ t.columns, column.name = name := by
  unfold resolveColumn at failed
  split at failed
  · cases failed
  · rename_i missing
    obtain rfl := Except.error.inj failed
    exact ⟨rfl, by simpa [Table.column?] using missing⟩

private theorem kind_of_resolvePair {ends : Sides Table} {pair : ColumnPair} {e : MappingError}
    (failed : resolvePair ends pair = .error e) :
    e.kind = .schemaResolution ∧
      ∃ d, ¬ ∃ column ∈ (ends.on d).columns, column.name = pair.on d := by
  rcases of_bind_eq_error failed with left | ⟨_, -, failed⟩
  · exact (kind_of_resolveColumn left).imp_right (⟨.left, ·⟩)
  · rcases of_bind_eq_error failed with right | ⟨_, -, impossible⟩
    · exact (kind_of_resolveColumn right).imp_right (⟨.right, ·⟩)
    · cases impossible

private theorem isFoundIn_of_resolveParts {j : Join} {tables : List Table} {ends : Sides Table}
    {pairs : List (Sides Column)} (found : j.resolveParts tables = .ok (ends, pairs)) :
    j.IsFoundIn tables := by
  intro d
  obtain ⟨table, columns⟩ := of_resolveParts found d
  obtain ⟨member, same⟩ := mem_of_findTable table
  refine ⟨ends.on d, member, same, fun pair hpair => ?_⟩
  obtain ⟨column, -, hcolumn⟩ := exists_right_of_forall₂ columns hpair
  exact ⟨column.on d, List.mem_of_find?_eq_some hcolumn, by simpa using List.find?_some hcolumn⟩

private theorem column_of_isFoundIn {j : Join} {tables : List Table}
    (distinct : (tables.map (·.name)).Nodup) (found : j.IsFoundIn tables) {d : Direction}
    {t : Table} (table : j.resolveTable tables d = .ok t) {pair : ColumnPair}
    (member : pair ∈ j.condition.pairs) : ∃ column ∈ t.columns, column.name = pair.on d := by
  obtain ⟨s, hs, same, columns⟩ := found d
  have self := findTable_name distinct hs
  rw [same, resolveTable_eq_ok_iff.mp table] at self
  obtain rfl := Option.some.inj self
  exact columns pair member

private theorem not_isFoundIn_of_resolveParts {j : Join} {tables : List Table}
    (distinct : (tables.map (·.name)).Nodup) (paired : j.condition.pairs ≠ []) {e : MappingError}
    (failed : j.resolveParts tables = .error e) :
    e.kind = .schemaResolution ∧ ¬ j.IsFoundIn tables := by
  unfold resolveParts at failed
  dsimp only at failed
  rw [if_neg (by simpa using paired)] at failed
  rcases of_bind_eq_error failed with left | ⟨left, hleft, failed⟩
  · obtain ⟨kind, missing⟩ := kind_of_resolveTable left
    exact ⟨kind, fun found => missing ((found .left).imp fun _ h => ⟨h.1, h.2.1⟩)⟩
  rcases of_bind_eq_error failed with right | ⟨right, hright, failed⟩
  · obtain ⟨kind, missing⟩ := kind_of_resolveTable right
    exact ⟨kind, fun found => missing ((found .right).imp fun _ h => ⟨h.1, h.2.1⟩)⟩
  rcases of_bind_eq_error failed with columns | ⟨_, -, impossible⟩
  · obtain ⟨pair, member, columns⟩ := exists_of_mapM_eq_error columns
    obtain ⟨kind, d, missing⟩ := kind_of_resolvePair columns
    refine ⟨kind, fun found => missing ?_⟩
    cases d with
    | left => exact column_of_isFoundIn distinct found hleft member
    | right => exact column_of_isFoundIn distinct found hright member
  · cases impossible

private theorem reports_resolveParts {tables : List Table} (distinct : (tables.map (·.name)).Nodup)
    (j : Join) : Reports (j.resolveParts tables) (Violation.ofJoin tables j) := by
  by_cases paired : j.condition.pairs = []
  · have failed : j.resolveParts tables =
        .error (.joinWithoutPairs j.entities.left j.entities.right) := by
      unfold resolveParts
      rw [paired]
      rfl
    rw [failed, Violation.ofJoin, Violation.against, if_neg (not_not_intro paired)]
    rfl
  rw [Violation.ofJoin, Violation.against, if_pos paired, List.nil_append]
  cases result : j.resolveParts tables with
  | ok parts => exact Violation.against_eq_nil_iff.mpr (isFoundIn_of_resolveParts result)
  | error e =>
    obtain ⟨kind, missing⟩ := not_isFoundIn_of_resolveParts distinct paired result
    rw [Violation.against, if_neg missing]
    exact congrArg some kind.symm

theorem reports_resolve {tables : List Table} (distinct : (tables.map (·.name)).Nodup) (j : Join)
    (number : Nat) (supply : NameSupply) :
    Reports (j.resolve tables number supply).1 (Violation.ofJoin tables j) := by
  have parts := reports_resolveParts distinct j
  unfold resolve
  split
  · rename_i e failed
    rwa [failed] at parts
  · rename_i found
    rwa [found] at parts

end Join

namespace Registry

private theorem any_under_iff {registry : Registry} {done : List Relationship}
    (listed : ∀ table, registry.under table = done.filter (·.source.name == table))
    (r : Relationship) : (registry.under r.source.name).any (·.name == r.name) = true ↔
      ¬ ∀ side ∈ done.map fun s => (s.source.name, s.name), side ≠ (r.source.name, r.name) := by
  rw [listed]
  simp

theorem reports_foldlM_register (rs : List Relationship) :
    Reports (rs.foldlM register ([] : Registry))
      ((withEarlier [] (rs.map fun r => (r.source.name, r.name))).flatMap
        fun p => Violation.ofSide p.1 p.2) := by
  refine Reports.foldlM _ (fun done registry =>
    ∀ table, registry.under table = done.filter (·.source.name == table)) ?_ ?_ fun _ => rfl
  · intro done registry r listed
    exact Reports.refuse (any_under_iff listed r) rfl
  · intro done registry r more registered listed table
    rw [under_of_register registered, listed, List.filter_append]

end Registry

namespace Catalog

private theorem any_name_iff {α : Type} {name : α → String} {items : List α} {n : String} :
    items.any (name · == n) = true ↔ ¬ ∀ item ∈ items, name item ≠ n := by
  simp

private theorem map_snd_owned {α β : Type} (name : α → String) (declared : α → List β)
    (owners : List α) :
    (owners.flatMap fun owner => (declared owner).map (name owner, ·)).map (·.2) =
      owners.flatMap declared := by
  simp [List.map_flatMap, Function.comp_def]

theorem reports_gatherTables (maps : List DataMap) :
    Reports (gatherTables maps) (tableViolations (maps.flatMap (·.tables))) := by
  rw [tableViolations, ← map_snd_owned DataMap.name DataMap.tables maps]
  refine Reports.foldlM _ (fun done tables => tables = done.map (·.2)) ?_ ?_ rfl
  · rintro done _ ⟨map, table⟩ rfl
    exact Reports.refuse any_name_iff rfl
  · rintro done _ ⟨map, table⟩ more accepted rfl
    dsimp only at accepted
    split at accepted
    · cases accepted
    · obtain rfl := Except.ok.inj accepted
      simp

theorem reports_gatherObjects (maps : List DataMap) (tables : List Table) :
    Reports (gatherObjects maps tables)
      (objectViolations tables (maps.flatMap (·.objects))) := by
  rw [objectViolations, ← map_snd_owned DataMap.name DataMap.objects maps]
  refine Reports.foldlM _ (fun done objects => objects = done.map (·.2)) ?_ ?_ rfl
  · rintro done _ ⟨map, object⟩ rfl
    exact Reports.ite any_name_iff rfl (Reports.refuse Join.isNone_findTable_iff rfl)
  · rintro done _ ⟨map, object⟩ more accepted rfl
    dsimp only at accepted
    split at accepted
    · cases accepted
    · split at accepted
      · cases accepted
      · obtain rfl := Except.ok.inj accepted
        simp

theorem reports_checkTargets (objects : List ObjectEntity) :
    Reports (checkTargets objects) (targetViolations objects) := by
  rw [targetViolations, ← map_snd_owned ObjectEntity.name ObjectEntity.relationships objects,
    List.flatMap_map]
  refine Reports.forM fun owned _ => ?_
  change Reports (if objects.any (·.name == owned.2.target) then .ok () else .error _)
    (Violation.unknownTarget.against (∃ o ∈ objects, o.name = owned.2.target))
  rw [← ite_not]
  exact Reports.refuse (by simp) rfl

theorem resolveJoins_cons_fst (tables : List Table) (number : Nat) (j : Join) (joins : List Join)
    (supply : NameSupply) : (resolveJoins tables number (j :: joins) supply).1 =
      (j.resolve tables number supply).1 >>= fun first =>
        (resolveJoins tables (number + 1) joins (j.resolve tables number supply).2).1.map
          (first :: ·) := by
  rw [resolveJoins]
  obtain ⟨result, after⟩ := j.resolve tables number supply
  cases result with
  | error e => rfl
  | ok first =>
    dsimp only
    obtain ⟨others, last⟩ := resolveJoins tables (number + 1) joins after
    cases others <;> rfl

private theorem reports_resolveJoins {tables : List Table} (distinct : (tables.map (·.name)).Nodup)
    (joins : List Join) (number : Nat) (supply : NameSupply) :
    Reports (resolveJoins tables number joins supply).1 (joinViolations tables joins) := by
  induction joins generalizing number supply with
  | nil => rfl
  | cons j joins ih =>
    rw [resolveJoins_cons_fst, joinViolations, List.flatMap_cons]
    exact (Join.reports_resolve distinct j number supply).bind fun _ _ => (ih _ _).map

private theorem map_sidesOf_of_resolve {j : Join} {tables : List Table} {number : Nat}
    {supply after : NameSupply} {resolved : ResolvedJoin}
    (found : j.resolve tables number supply = (.ok resolved, after)) :
    ((sidesOf resolved).filter fun r => !r.isRuntime).map (fun r => (r.source.name, r.name)) =
      j.namedSides := by
  have resolves := Join.resolves_of_resolve found
  have source (d : Direction) : (Relationship.mk resolved d).source.name = j.entities.on d :=
    (Join.mem_of_findTable (resolves.table d)).2
  have runtime (d : Direction) : (Relationship.mk resolved d).isRuntime = (j.names.on d).isNone :=
    congrArg (fun j => (j.names.on d).isNone) resolves.declaration
  have name (d : Direction) {n : String} (named : j.names.on d = some n) :
      (Relationship.mk resolved d).name = n := Join.name_of_resolve found named
  unfold sidesOf Join.namedSides
  cases left : j.names.on .left <;> cases right : j.names.on .right <;>
    simp [source, runtime, left, right, name .left, name .right]

theorem map_sides_of_resolveJoins {tables : List Table} {number : Nat} {joins : List Join}
    {supply after : NameSupply} {resolved : List ResolvedJoin}
    (found : resolveJoins tables number joins supply = (.ok resolved, after)) :
    ((resolved.flatMap sidesOf).filter fun r => !r.isRuntime).map
      (fun r => (r.source.name, r.name)) = joins.flatMap Join.namedSides := by
  have each := forall₂_of_resolveJoins map_sidesOf_of_resolve found
  clear found
  induction each with
  | nil => rfl
  | cons first _ ih =>
    rw [List.flatMap_cons, List.filter_append, List.map_append, first, ih, List.flatMap_cons]

private theorem compile_fst (maps : List DataMap) (supply : NameSupply) :
    (compile maps supply).1 = (do
      let tables ← gatherTables maps
      let objects ← gatherObjects maps tables
      checkTargets objects
      let joins ← (resolveJoins tables 0 (maps.flatMap (·.joins)) supply).1
      (registerSides joins).map ({ tables, objects, joins, registry := · })) := by
  -- the last two passes work on what the first ones gathered
  have passes : (compile maps supply).1 = compileEntities maps >>= fun found =>
      (resolveJoins found.1 0 (maps.flatMap (·.joins)) supply).1 >>= fun joins =>
        (registerSides joins).map (⟨found.1, found.2, joins, ·⟩) := by
    unfold compile
    cases compileEntities maps with
    | error e => rfl
    | ok found =>
      dsimp only [Except.bind, bind]
      generalize resolveJoins found.1 0 (maps.flatMap (·.joins)) supply = outcome
      obtain ⟨result, after⟩ := outcome
      cases result with
      | error e => rfl
      | ok joins =>
        dsimp only
        cases registerSides joins <;> rfl
  rw [passes, compileEntities]
  simp only [bind_assoc, pure_bind]

theorem reports_compile (maps : List DataMap) (supply : NameSupply) :
    Reports (compile maps supply).1 (violations maps) := by
  rw [compile_fst]
  refine (reports_gatherTables maps).bind fun tables gathered => ?_
  -- from here on tables differ in name, so a join finds the only one of a name
  obtain ⟨rfl, distinct⟩ := of_gatherTables gathered
  refine (reports_gatherObjects maps _).bind fun objects listed => ?_
  obtain rfl := (of_gatherObjects listed).1
  refine (reports_checkTargets _).bind fun _ _ => ?_
  refine (reports_resolveJoins distinct _ 0 supply).bind fun joins found => ?_
  have sides := map_sides_of_resolveJoins (Prod.ext found rfl)
  rw [sideViolations, ← sides]
  exact (Registry.reports_foldlM_register _).map

/-- A compilation succeeds just on the schemas that are well formed. On any other it fails, with
the kind of the first violation. -/
theorem compile_accepts_wellFormed (maps : List DataMap) (supply : NameSupply) :
    ((∃ c, (compile maps supply).1 = .ok c) ↔ WellFormed maps) ∧
      ∀ kind, (∃ e, (compile maps supply).1 = .error e ∧ e.kind = kind) ↔
        (violations maps).head?.map Violation.kind = some kind := by
  have reports := reports_compile maps supply
  exact ⟨reports.exists_ok_iff.trans violations_eq_nil_iff, reports.exists_error_iff⟩

end Catalog

end ObjectRelational
