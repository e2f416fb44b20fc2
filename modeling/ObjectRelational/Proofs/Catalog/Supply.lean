import ObjectRelational.Proofs.Catalog.Naming
import ObjectRelational.Proofs.Catalog.Verdict

set_option autoImplicit false
set_option relaxedAutoImplicit false

/-!
Runs of calls that share a supply of names. The names of a run count up from the first, whichever
of its compilations fail: one that fails leaves behind the names of the joins that it resolved.
-/

namespace ObjectRelational

namespace Join

def unnamed (j : Join) : Nat :=
  ([Direction.left, .right].filter fun d => (j.names.on d).isNone).length

/-- Whether the join has pairs of columns, all of which are found. -/
def IsResolvable (j : Join) (tables : List Table) : Prop :=
  j.condition.pairs ≠ [] ∧ j.IsFoundIn tables

private theorem exists_resolve_ok_iff {tables : List Table} (distinct : (tables.map (·.name)).Nodup)
    (j : Join) (number : Nat) (supply : NameSupply) :
    (∃ resolved, (j.resolve tables number supply).1 = .ok resolved) ↔ j.IsResolvable tables := by
  rw [(reports_resolve distinct j number supply).exists_ok_iff, Violation.ofJoin,
    List.append_eq_nil_iff, Violation.against_eq_nil_iff, Violation.against_eq_nil_iff,
    IsResolvable]

private theorem supply_of_resolve_error {j : Join} {tables : List Table} {number : Nat}
    {supply after : NameSupply} {e : MappingError}
    (failed : j.resolve tables number supply = (.error e, after)) : after = supply := by
  unfold resolve at failed
  split at failed
  · exact (Prod.mk.inj failed).2.symm
  · cases (Prod.mk.inj failed).1

end Join

/-- The names that were drawn for a join: those of its directions that are not mapped. -/
def ResolvedJoin.drawnNames (resolved : ResolvedJoin) : List String :=
  ((Catalog.sidesOf resolved).filter (·.isRuntime)).map (·.name)

private theorem Join.length_drawnNames {j : Join} {tables : List Table} {number : Nat}
    {supply after : NameSupply} {resolved : ResolvedJoin}
    (found : j.resolve tables number supply = (.ok resolved, after)) :
    resolved.drawnNames.length = j.unnamed := by
  obtain ⟨ends, pairs, -, rfl, -⟩ := of_resolve found
  cases left : j.names.left <;> cases right : j.names.right <;>
    simp [ResolvedJoin.drawnNames, Catalog.sidesOf, Relationship.isRuntime,
      ResolvedJoin.isRuntime, unnamed, Sides.on, left, right]

namespace Catalog

def unnamed (joins : List Join) : Nat := (joins.map Join.unnamed).sum

/-- The names that are drawn while joins are resolved, up to the first that is not. -/
def drawnNames (tables : List Table) : Nat → List Join → NameSupply → List String
  | _, [], _ => []
  | number, j :: joins, supply =>
    match j.resolve tables number supply with
    | (.error _, _) => []
    | (.ok resolved, after) => resolved.drawnNames ++ drawnNames tables (number + 1) joins after

/-- The violations that are found before any join is looked at. -/
def entityViolations (maps : List DataMap) : List Violation :=
  tableViolations (maps.flatMap (·.tables)) ++
    (objectViolations (maps.flatMap (·.tables)) (maps.flatMap (·.objects)) ++
      targetViolations (maps.flatMap (·.objects)))

/-- How many names a compilation draws, by its outcome: for all directions without a name, if it
succeeds or fails on a repeated name only; for those of the joins in front of the first that is not
resolved; and none if it fails on an entity. -/
inductive DrawsFor (maps : List DataMap) : Except MappingError Catalog → Nat → Prop
  | accepted {c : Catalog} : entityViolations maps = [] →
      (∀ j ∈ maps.flatMap (·.joins), j.IsResolvable (maps.flatMap (·.tables))) →
      DrawsFor maps (.ok c) (unnamed (maps.flatMap (·.joins)))
  | entity {e : MappingError} : entityViolations maps ≠ [] → DrawsFor maps (.error e) 0
  | join {e : MappingError} {front back : List Join} {j : Join} : entityViolations maps = [] →
      maps.flatMap (·.joins) = front ++ j :: back →
      (∀ i ∈ front, i.IsResolvable (maps.flatMap (·.tables))) →
      ¬ j.IsResolvable (maps.flatMap (·.tables)) → DrawsFor maps (.error e) (unnamed front)
  | side {name table : String} : entityViolations maps = [] →
      (∀ j ∈ maps.flatMap (·.joins), j.IsResolvable (maps.flatMap (·.tables))) →
      ¬ ((maps.flatMap (·.joins)).flatMap Join.namedSides).Nodup →
      DrawsFor maps (.error (.duplicateRelationship name table))
        (unnamed (maps.flatMap (·.joins)))

private theorem draws_drawnNames (tables : List Table) (number : Nat) (joins : List Join)
    (supply : NameSupply) :
    supply.Draws (drawnNames tables number joins supply)
      (resolveJoins tables number joins supply).2 := by
  induction joins generalizing number supply with
  | nil => exact .nil supply
  | cons j joins ih =>
    rw [drawnNames, resolveJoins]
    cases outcome : j.resolve tables number supply with
    | mk result after =>
      cases result with
      | error e =>
        rw [Join.supply_of_resolve_error outcome]
        exact .nil supply
      | ok resolved =>
        have drawn := (Join.draws_of_resolve outcome).append (ih (number + 1) after)
        dsimp only
        cases rest : resolveJoins tables (number + 1) joins after with
        | mk result last =>
          rw [rest] at drawn
          cases result <;> exact drawn

private theorem drawnNames_of_resolveJoins {tables : List Table} {number : Nat} {joins : List Join}
    {supply after : NameSupply} {resolved : List ResolvedJoin}
    (found : resolveJoins tables number joins supply = (.ok resolved, after)) :
    drawnNames tables number joins supply =
      ((resolved.flatMap sidesOf).filter (·.isRuntime)).map (·.name) := by
  induction joins generalizing number supply after resolved with
  | nil =>
    obtain ⟨same, -⟩ := Prod.mk.inj found
    obtain rfl := Except.ok.inj same
    rfl
  | cons j joins ih =>
    obtain ⟨first, rest, between, one, others, rfl⟩ := of_resolveJoins_cons found
    rw [drawnNames, one, List.flatMap_cons, List.filter_append, List.map_append, ← ih others]
    rfl

private theorem resolveJoins_cases {tables : List Table} (distinct : (tables.map (·.name)).Nodup)
    (number : Nat) (joins : List Join) (supply : NameSupply) :
    ((∃ resolved, (resolveJoins tables number joins supply).1 = .ok resolved) ∧
        (∀ j ∈ joins, j.IsResolvable tables) ∧
        (drawnNames tables number joins supply).length = unnamed joins) ∨
      (∃ e, (resolveJoins tables number joins supply).1 = .error e) ∧
        ∃ front j back, joins = front ++ j :: back ∧ (∀ i ∈ front, i.IsResolvable tables) ∧
          ¬ j.IsResolvable tables ∧
          (drawnNames tables number joins supply).length = unnamed front := by
  induction joins generalizing number supply with
  | nil => exact .inl ⟨⟨[], rfl⟩, nofun, rfl⟩
  | cons j joins ih =>
    have resolvable := Join.exists_resolve_ok_iff distinct j number supply
    rw [resolveJoins_cons_fst, drawnNames]
    cases outcome : j.resolve tables number supply with
    | mk result after =>
      rw [outcome] at resolvable
      cases result with
      | error e =>
        have not : ¬ j.IsResolvable tables := fun is => by
          obtain ⟨_, impossible⟩ := resolvable.mpr is
          cases impossible
        exact .inr ⟨⟨e, rfl⟩, [], j, joins, rfl, nofun, not, rfl⟩
      | ok first =>
        have is : j.IsResolvable tables := resolvable.mp ⟨first, rfl⟩
        have length := Join.length_drawnNames outcome
        rcases ih (number + 1) after with ⟨⟨rest, ok⟩, all, count⟩ |
          ⟨⟨e, failed⟩, front, i, back, rfl, before, not, count⟩
        · refine .inl ⟨⟨first :: rest, ?_⟩, List.forall_mem_cons.mpr ⟨is, all⟩, ?_⟩
          · dsimp only
            rw [ok]
            rfl
          · simp [unnamed, length, count]
        · refine .inr ⟨⟨e, ?_⟩, j :: front, i, back, rfl,
            List.forall_mem_cons.mpr ⟨is, before⟩, not, ?_⟩
          · dsimp only
            rw [failed]
            rfl
          · simp [unnamed, length, count]

private theorem reports_compileEntities (maps : List DataMap) :
    Reports (compileEntities maps) (entityViolations maps) := by
  refine (reports_gatherTables maps).bind fun tables gathered => ?_
  obtain ⟨rfl, -⟩ := of_gatherTables gathered
  refine (reports_gatherObjects maps _).bind fun objects listed => ?_
  obtain rfl := (of_gatherObjects listed).1
  rw [← List.append_nil (targetViolations _)]
  exact (reports_checkTargets _).bind fun _ _ => rfl

private theorem of_compileEntities {maps : List DataMap} {tables : List Table}
    {objects : List ObjectEntity} (found : compileEntities maps = .ok (tables, objects)) :
    tables = maps.flatMap (·.tables) ∧ (tables.map (·.name)).Nodup := by
  obtain ⟨gathered, first, found⟩ := bind_eq_ok_iff.mp found
  obtain ⟨listed, -, found⟩ := bind_eq_ok_iff.mp found
  obtain ⟨-, -, found⟩ := bind_eq_ok_iff.mp found
  obtain ⟨rfl, -⟩ := Prod.mk.inj (Except.ok.inj found)
  exact of_gatherTables first

private theorem of_register_eq_error {registry : Registry} {r : Relationship} {e : MappingError}
    (failed : registry.register r = .error e) :
    e = .duplicateRelationship r.name r.source.name := by
  unfold Registry.register at failed
  split at failed
  · exact (Except.error.inj failed).symm
  · cases failed

private theorem of_registerSides_eq_error {tables : List Table} {number : Nat} {joins : List Join}
    {supply after : NameSupply} {resolved : List ResolvedJoin} {e : MappingError}
    (found : resolveJoins tables number joins supply = (.ok resolved, after))
    (failed : registerSides resolved = .error e) :
    (∃ name table, e = .duplicateRelationship name table) ∧
      ¬ (joins.flatMap Join.namedSides).Nodup := by
  obtain ⟨_, r, -, refused⟩ := exists_of_foldlM_eq_error failed
  refine ⟨⟨r.name, r.source.name, of_register_eq_error refused⟩, fun apart => ?_⟩
  have reports := Registry.reports_foldlM_register
    ((resolved.flatMap sidesOf).filter fun r => !r.isRuntime)
  rw [map_sides_of_resolveJoins found] at reports
  obtain ⟨registry, registered⟩ := reports.exists_ok_iff.mpr (sideViolations_eq_nil_iff.mpr apart)
  rw [registerSides, registered] at failed
  cases failed

def namesDrawnBy (maps : List DataMap) (supply : NameSupply) : List String :=
  match compileEntities maps with
  | .error _ => []
  | .ok (tables, _) => drawnNames tables 0 (maps.flatMap (·.joins)) supply

private theorem draws_compile (maps : List DataMap) (supply : NameSupply) :
    supply.Draws (namesDrawnBy maps supply) (compile maps supply).2 := by
  unfold namesDrawnBy compile
  cases compileEntities maps with
  | error e => exact .nil supply
  | ok found =>
    have drawn := draws_drawnNames found.1 0 (maps.flatMap (·.joins)) supply
    dsimp only
    cases outcome : resolveJoins found.1 0 (maps.flatMap (·.joins)) supply with
    | mk result after =>
      rw [outcome] at drawn
      cases result with
      | error e => exact drawn
      | ok joins =>
        dsimp only
        cases registerSides joins <;> exact drawn

private theorem namesDrawnBy_of_compile {maps : List DataMap} {supply after : NameSupply}
    {c : Catalog} (compiled : compile maps supply = (.ok c, after)) :
    namesDrawnBy maps supply = c.runtimeSides.map (·.name) := by
  have stages := stages_of_compile compiled
  have entities : compileEntities maps = .ok (c.tables, c.objects) := by
    rw [compileEntities, stages.tables]
    change (gatherObjects maps c.tables >>= fun objects => _) = _
    rw [stages.objects]
    change (checkTargets c.objects >>= fun _ => _) = _
    rw [stages.targets]
    rfl
  rw [namesDrawnBy, entities]
  exact drawnNames_of_resolveJoins stages.joins

private theorem drawsFor_compile (maps : List DataMap) (supply : NameSupply) :
    DrawsFor maps (compile maps supply).1 (namesDrawnBy maps supply).length := by
  have entities := reports_compileEntities maps
  unfold namesDrawnBy compile
  cases gathered : compileEntities maps with
  | error e =>
    refine .entity fun clean => ?_
    obtain ⟨_, impossible⟩ := entities.exists_ok_iff.mpr clean
    rw [gathered] at impossible
    cases impossible
  | ok found =>
    obtain ⟨tables, objects⟩ := found
    have clean := entities.exists_ok_iff.mp ⟨_, gathered⟩
    obtain ⟨rfl, distinct⟩ := of_compileEntities gathered
    have joins := resolveJoins_cases distinct 0 (maps.flatMap (·.joins)) supply
    dsimp only
    cases outcome : resolveJoins (maps.flatMap (·.tables)) 0 (maps.flatMap (·.joins)) supply with
    | mk result after =>
      rw [outcome] at joins
      rcases joins with ⟨⟨resolved, rfl⟩, all, count⟩ |
        ⟨⟨e, rfl⟩, front, j, back, split, before, not, count⟩
      · rw [count]
        dsimp only
        cases registered : registerSides resolved with
        | ok registry => exact .accepted clean all
        | error e =>
          obtain ⟨⟨name, table, rfl⟩, repeated⟩ := of_registerSides_eq_error outcome registered
          exact .side clean all repeated
      · rw [count]
        exact .join clean split before not

end Catalog

/-- What asks a supply for names: a caller of its own, or the compilation of data maps. -/
inductive SupplyCall
  | name
  | compile (maps : List DataMap)

namespace NameSupply

variable {s t : NameSupply}

def call (s : NameSupply) : SupplyCall → NameSupply
  | .name => s.draw.2
  | .compile maps => (Catalog.compile maps s).2

def handedOut (s : NameSupply) : SupplyCall → List String
  | .name => [s.draw.1]
  | .compile maps => Catalog.namesDrawnBy maps s

def callAll (s : NameSupply) (calls : List SupplyCall) : NameSupply := calls.foldl call s

def handedOutAll (s : NameSupply) : List SupplyCall → List String
  | [] => []
  | q :: calls => s.handedOut q ++ handedOutAll (s.call q) calls

private theorem handedOutAll_append (s : NameSupply) (front back : List SupplyCall) :
    s.handedOutAll (front ++ back) =
      s.handedOutAll front ++ (s.callAll front).handedOutAll back := by
  induction front generalizing s with
  | nil => rfl
  | cons q front ih =>
    rw [List.cons_append, handedOutAll, ih, handedOutAll, List.append_assoc]
    rfl

private theorem draws_handedOut (s : NameSupply) (q : SupplyCall) :
    s.Draws (s.handedOut q) (s.call q) := by
  cases q with
  | name => exact .draw s
  | compile maps => exact Catalog.draws_compile maps s

/-- A run draws its names one after another, whichever of its calls fail. -/
private theorem draws_handedOutAll (s : NameSupply) (calls : List SupplyCall) :
    s.Draws (s.handedOutAll calls) (s.callAll calls) := by
  induction calls generalizing s with
  | nil => exact .nil s
  | cons q calls ih => exact (s.draws_handedOut q).append (ih (s.call q))

private theorem Draws.issued {names : List String} (drawn : s.Draws names t)
    (few : s.issued.toNat + names.length < 2 ^ 64) :
    t.issued.toNat = s.issued.toNat + names.length := by
  have small : names.length < UInt64.size := (Nat.le_add_left _ _).trans_lt few
  rw [drawn.skipped, skip, UInt64.toNat_add, UInt64.toNat_ofNat_of_lt' small]
  exact Nat.mod_eq_of_lt few

private theorem nameAt_of_lt {i : Nat} (small : i < 2 ^ 64) (stem : String) :
    (NameSupply.mk stem 0).nameAt i = stem ++ toString i := by
  have count : (UInt64.ofNat i).toNat = i := UInt64.toNat_ofNat_of_lt' small
  rw [nameAt, UInt64.zero_add]
  exact congrArg (fun n : Nat => stem ++ toString n) count

private theorem issued_callAll {stem : String} {calls : List SupplyCall}
    (few : ((NameSupply.mk stem 0).handedOutAll calls).length < 2 ^ 64) :
    ((NameSupply.mk stem 0).callAll calls).issued.toNat =
      ((NameSupply.mk stem 0).handedOutAll calls).length := by
  have drawn := draws_handedOutAll (NameSupply.mk stem 0) calls
  rw [drawn.issued (by simpa using few)]
  exact Nat.zero_add _

/-- In a run of calls that share a supply, no name is drawn twice: the names are the stem with a
count of the names in front. Each compilation draws one for every direction without a name, up to
the join that it fails on. -/
theorem names_of_run (stem : String) (calls : List SupplyCall)
    (few : ((NameSupply.mk stem 0).handedOutAll calls).length < 2 ^ 64) :
    let start := NameSupply.mk stem 0
    let names := start.handedOutAll calls
    names = (List.range names.length).map (fun i => stem ++ toString i) ∧ names.Nodup ∧
      (start.callAll calls).issued.toNat = names.length ∧
      ∀ before maps rest, calls = before ++ .compile maps :: rest →
        let s := start.callAll before
        (∃ n, Catalog.DrawsFor maps (Catalog.compile maps s).1 n ∧
          (Catalog.compile maps s).2.issued.toNat = s.issued.toNat + n) ∧
          ∀ c, (Catalog.compile maps s).1 = .ok c →
            s.handedOut (.compile maps) = c.runtimeSides.map (·.name) := by
  intro start names
  have drawn : start.Draws names (start.callAll calls) := draws_handedOutAll start calls
  refine ⟨?_, drawn.nodup few.le, issued_callAll few, ?_⟩
  · rw [drawn.counted, List.length_map, List.length_range]
    refine List.map_congr_left fun i inside => nameAt_of_lt ?_ stem
    exact (List.mem_range.mp inside).trans few
  · rintro before maps rest rfl
    intro s
    -- what was drawn in front of a compilation, and in it, is a part of the run
    have parts : names.length = (start.handedOutAll before).length +
        ((Catalog.namesDrawnBy maps s).length +
          ((s.call (.compile maps)).handedOutAll rest).length) := by
      rw [← List.length_append, ← List.length_append]
      exact congrArg List.length (handedOutAll_append start before (.compile maps :: rest))
    have short : names.length < 2 ^ 64 := few
    have here : s.issued.toNat = (start.handedOutAll before).length :=
      issued_callAll (by change (start.handedOutAll before).length < _; omega)
    refine ⟨⟨_, Catalog.drawsFor_compile maps s, ?_⟩, fun c accepted => ?_⟩
    · exact (Catalog.draws_compile maps s).issued (by omega)
    · exact Catalog.namesDrawnBy_of_compile (Prod.ext accepted rfl)

end NameSupply

namespace Roster

def repeated : DataMap := { people with joins := people.joins ++ people.joins }

def teamless : DataMap := { people with joins := people.joins ++ teams.joins }

def supplyRun : List SupplyCall :=
  [.compile [repeated], .name, .compile [teamless], .compile [people, people],
    .compile [people, teams]]

end Roster

namespace NameSupply

open Roster

theorem names_of_supplyRun :
    let start := NameSupply.mk "rt" 0
    let s := start.callAll [.compile [repeated], .name]
    (start.handedOutAll supplyRun).length < 2 ^ 64 ∧
      start.handedOutAll supplyRun = ["rt0", "rt1", "rt2", "rt3", "rt4"] ∧
      (start.handedOutAll supplyRun).Nodup ∧
      ∃ n, Catalog.DrawsFor [teamless] (Catalog.compile [teamless] s).1 n ∧
        (Catalog.compile [teamless] s).2.issued.toNat = s.issued.toNat + n := by
  intro start s
  have few : (start.handedOutAll supplyRun).length < 2 ^ 64 := by decide +kernel
  obtain ⟨-, apart, -, compilations⟩ := names_of_run "rt" supplyRun few
  exact ⟨few, by decide +kernel, apart,
    (compilations [.compile [repeated], .name] [teamless] _ rfl).1⟩

end NameSupply

end ObjectRelational
