import ObjectRelational.Proofs.Catalog.Matched
import ObjectRelational.Proofs.Catalog.Naming
import ObjectRelational.Proofs.Commit.DependencyGraph

set_option autoImplicit false
set_option relaxedAutoImplicit false

/-!
Which of the relationships of a table to itself a commit order records. All that constrain are
recorded, or the first of them only, and each once although it is met with every key column that it
leads to. The rest of the order does not depend on this choice.
-/

namespace ObjectRelational

instance (r : Relationship) : Decidable r.Constraining := decidable_of_iff _ r.constrains_iff

namespace Catalog

def selfReferences (c : Catalog) (table : String) : List Relationship :=
  c.sides.filter fun r => r.source.name = table ∧ r.target.name = table ∧ r.Constraining

/-- The key columns that sides refer to, each as the side that leads to it: a side stands here as
often as it matches columns of the key. -/
def visits (c : Catalog) : List Relationship :=
  (c.sides.filter (·.refers)).flatMap fun r =>
    (r.columnPairs.filter (·.2.primaryKey)).map fun _ => r

end Catalog

namespace CommitIndex

def recordIn (policy : ReflexivePolicy) (recorded : List Relationship) (r : Relationship) :
    List Relationship :=
  if records policy recorded r then recorded ++ [r] else recorded

private theorem under_record_self (policy : ReflexivePolicy) (registry : Registry)
    (r : Relationship) : (record policy registry r).under r.source.name =
      recordIn policy (registry.under r.source.name) r := by
  unfold record recordIn
  split
  · exact registry.under_insert_self r.source.name r
  · rfl

private theorem under_record_of_ne (policy : ReflexivePolicy) (registry : Registry)
    {r : Relationship} {table : String} (differs : r.source.name ≠ table) :
    (record policy registry r).under table = registry.under table := by
  unfold record
  split
  · exact registry.under_insert_of_ne r (Ne.symm differs)
  · rfl

private theorem under_foldl_record (policy : ReflexivePolicy) (rs : List Relationship)
    (registry : Registry) (table : String) :
    (rs.foldl (record policy) registry).under table =
      (rs.filter (·.source.name == table)).foldl (recordIn policy) (registry.under table) := by
  induction rs generalizing registry with
  | nil => rfl
  | cons r rs ih =>
    rw [List.foldl_cons, ih]
    by_cases same : r.source.name = table
    · subst same
      rw [under_record_self, List.filter_cons_of_pos (by simp), List.foldl_cons]
    · rw [under_record_of_ne policy registry same,
        List.filter_cons_of_neg (by simpa using same)]

private theorem foldl_recordIn_every {recorded rs : List Relationship}
    (distinct : (recorded ++ rs).Nodup) :
    rs.foldl (recordIn .everyRelationship) recorded = recorded ++ rs := by
  induction rs generalizing recorded with
  | nil => exact (List.append_nil _).symm
  | cons r rs ih =>
    have new : r ∉ recorded := fun old =>
      (List.nodup_append.mp distinct).2.2 r old r List.mem_cons_self rfl
    have added : recordIn .everyRelationship recorded r = recorded ++ [r] :=
      if_pos (by simpa [records] using new)
    rw [List.foldl_cons, added, ih (by simpa using distinct), List.append_assoc,
      List.singleton_append]

private theorem foldl_recordIn_first (rs : List Relationship) :
    rs.foldl (recordIn .firstPerEntity) [] = rs.take 1 := by
  have keeps (r : Relationship) (rs : List Relationship) :
      rs.foldl (recordIn .firstPerEntity) [r] = [r] := by
    induction rs with
    | nil => rfl
    | cons s rs ih => exact ih
  cases rs with
  | nil => rfl
  | cons r rs => exact keeps r rs

private theorem record_record (policy : ReflexivePolicy) (registry : Registry) (r : Relationship) :
    record policy (record policy registry r) r = record policy registry r := by
  have known : records policy (recordIn policy (registry.under r.source.name) r) r = false := by
    unfold recordIn
    split
    · cases policy <;> simp [records]
    · rename_i refused
      simpa using refused
  rw [record, under_record_self, if_neg (by simp [known])]

private theorem foldl_record_flatMap {α : Type} (policy : ReflexivePolicy) (rs : List Relationship)
    (met : Relationship → List α) (registry : Registry) :
    (rs.flatMap fun r => (met r).map fun _ => r).foldl (record policy) registry =
      (rs.filter fun r => !(met r).isEmpty).foldl (record policy) registry := by
  have again (registry : Registry) (r : Relationship) (as : List α) :
      (as.map fun _ => r).foldl (record policy) (record policy registry r) =
        record policy registry r := by
    induction as with
    | nil => rfl
    | cons _ as ih => rw [List.map_cons, List.foldl_cons, record_record, ih]
  induction rs generalizing registry with
  | nil => rfl
  | cons r rs ih =>
    rw [List.flatMap_cons, List.foldl_append, ih]
    cases columns : met r with
    | nil => rw [List.filter_cons_of_neg (by simp [columns])]; rfl
    | cons column columns' =>
      rw [List.filter_cons_of_pos (by simp [columns]), List.map_cons, List.foldl_cons,
        again, List.foldl_cons]

variable {c : Catalog}

private theorem filter_isReflexive_constraints (table : String) :
    ((constraints c).filter (·.isReflexive)).filter (·.source.name == table) =
      c.selfReferences table := by
  rw [constraints, List.filter_filter, List.filter_filter, Catalog.selfReferences]
  apply List.filter_congr
  intro r _
  rw [Bool.eq_iff_iff]
  simp only [Relationship.isReflexive, Bool.and_eq_true, beq_iff_eq, decide_eq_true_eq,
    r.constrains_iff]
  constructor
  · rintro ⟨⟨rfl, same⟩, constraining⟩
    exact ⟨rfl, same.symm, constraining⟩
  · rintro ⟨rfl, same, constraining⟩
    exact ⟨⟨rfl, same.symm⟩, constraining⟩

private theorem reflexiveOn_build (policy : CommitPolicy) (table : String) :
    (build c policy).reflexiveOn table =
      (c.selfReferences table).foldl (recordIn policy.reflexive) [] := by
  rw [← filter_isReflexive_constraints]
  exact under_foldl_record policy.reflexive _ [] table

private theorem isReflexive_build_iff (h : c.Resolved) {index : CommitIndex} {table : String}
    (recorded : index.reflexiveOn table = [] ↔ c.selfReferences table = []) :
    index.isReflexive table = true ↔ (dependencyGraph c).hasArc table table = true := by
  rw [isReflexive, Bool.not_eq_true', List.isEmpty_eq_false_iff, ne_eq, recorded,
    hasArc_dependencyGraph h]
  constructor
  · intro some
    obtain ⟨r, member⟩ := List.exists_mem_of_ne_nil _ some
    obtain ⟨side, chosen⟩ := List.mem_filter.mp member
    obtain ⟨source, target, constraining⟩ := of_decide_eq_true chosen
    exact ⟨r.target, r.source, ⟨r, side, constraining, rfl, rfl⟩, target, source⟩
  · rintro ⟨_, _, ⟨r, side, constraining, rfl, rfl⟩, target, source⟩ none
    refine List.ne_nil_of_mem (List.mem_filter.mpr ⟨side, ?_⟩) none
    exact decide_eq_true ⟨source, target, constraining⟩

private theorem constrains_eq (r : Relationship) (matched : r.Matched) :
    r.constrains = (r.refers && !(r.columnPairs.filter (·.2.primaryKey)).isEmpty) := by
  rw [Relationship.constrains, Relationship.referencedKey, ← matched.map_snd_columnPairs,
    List.filter_map, List.isEmpty_map]
  rfl

private theorem filter_flatMap_met {α : Type} (p : Relationship → Bool) (rs : List Relationship)
    (met : Relationship → List α) :
    (rs.flatMap fun r => (met r).map fun _ => r).filter p =
      (rs.filter p).flatMap fun r => (met r).map fun _ => r := by
  induction rs with
  | nil => rfl
  | cons r rs ih =>
    rw [List.flatMap_cons, List.filter_append, ih, List.filter_map]
    cases chosen : p r <;> simp [chosen, Function.comp_def]

private theorem recordReflexive_visits (matched : ∀ r ∈ c.sides, r.Matched)
    (policy : ReflexivePolicy) :
    recordReflexive policy c.visits = recordReflexive policy (constraints c) := by
  have chosen : constraints c = (c.sides.filter (·.refers)).filter fun r =>
      !(r.columnPairs.filter (·.2.primaryKey)).isEmpty := by
    rw [constraints, List.filter_filter]
    apply List.filter_congr
    intro r member
    rw [constrains_eq r (matched r member), Bool.and_comm]
  rw [recordReflexive, recordReflexive, Catalog.visits, filter_flatMap_met, foldl_record_flatMap,
    chosen, List.filter_comm]

/-- A commit order records the relationships from a table to its own key, each once and in the
order of the sides, or the first of them. To go through the key columns that they lead to would
record the same. Both policies find the same tables reflexive, those with an arc to themselves, and
rank all tables alike. -/
theorem reflexiveOn_as_policy {maps : List DataMap} {supply after : NameSupply}
    (compiled : Catalog.compile maps supply = (.ok c, after)) (tieBreak : TieBreak)
    (table : String) :
    let every := build c ⟨tieBreak, .everyRelationship⟩
    let first := build c ⟨tieBreak, .firstPerEntity⟩
    every.reflexiveOn table = c.selfReferences table ∧ (c.selfReferences table).Nodup ∧
      first.reflexiveOn table = (c.selfReferences table).take 1 ∧
      (∀ policy, (build c policy).reflexive = recordReflexive policy.reflexive c.visits) ∧
      (every.groups = first.groups ∧ every.arcs = first.arcs ∧
        ∀ name, every.rank? name = first.rank? name) ∧
      (every.isReflexive table = true ↔ (dependencyGraph c).hasArc table table = true) ∧
      (first.isReflexive table = true ↔ (dependencyGraph c).hasArc table table = true) := by
  intro every first
  have resolved := Catalog.resolved_of_compile compiled
  have distinct : (c.selfReferences table).Nodup := (Catalog.nodup_sides compiled).filter _
  have all : every.reflexiveOn table = c.selfReferences table :=
    (reflexiveOn_build _ table).trans (foldl_recordIn_every distinct)
  have one : first.reflexiveOn table = (c.selfReferences table).take 1 :=
    (reflexiveOn_build _ table).trans (foldl_recordIn_first _)
  refine ⟨all, distinct, one, fun policy => ?_, ⟨rfl, rfl, fun _ => rfl⟩, ?_, ?_⟩
  · have matched : ∀ r ∈ c.sides, r.Matched := fun r => Catalog.matched_of_mem_sides compiled
    exact (recordReflexive_visits matched policy.reflexive).symm
  · exact isReflexive_build_iff resolved (by rw [all])
  · exact isReflexive_build_iff resolved (by rw [one]; simp)

end CommitIndex

namespace Roster

def crews : DataMap where
  name := "crews"
  tables :=
    [{ name := "SAILOR", columns := [.key "SHIP", .key "NUMBER", { name := "SUPERIOR" }] }]
  joins :=
    [{ condition := .multi [⟨"SHIP", "SHIP"⟩, ⟨"SUPERIOR", "NUMBER"⟩]
       entities := ⟨"SAILOR", "SAILOR"⟩
       names := ⟨some "superior", some "inferiors"⟩
       cardinality := .manyToOne },
     { condition := .single ⟨"NUMBER", "NUMBER"⟩
       entities := ⟨"SAILOR", "SAILOR"⟩
       names := ⟨some "namesake", none⟩
       cardinality := .oneToOne }]

def fleet : Catalog :=
  match Catalog.compile [crews] {} with
  | (.ok c, _) => c
  | (.error _, _) => ⟨[], [], [], []⟩

private theorem compile_crews : Catalog.compile [crews] {} = (.ok fleet, { issued := 1 }) := rfl

end Roster

namespace CommitIndex

open Roster

theorem reflexiveOn_as_policy_crews :
    fleet.visits.map (·.name) =
        ["superior", "superior", "namesake", "runtimeRelationship0"] ∧
      ((build fleet { reflexive := .everyRelationship }).reflexiveOn "SAILOR").map (·.name) =
        ["superior", "namesake", "runtimeRelationship0"] ∧
      ((build fleet {}).reflexiveOn "SAILOR").map (·.name) = ["superior"] ∧
      (dependencyGraph fleet).hasArc "SAILOR" "SAILOR" = true := by
  obtain ⟨all, -, one, -, -, -, arc⟩ :=
    reflexiveOn_as_policy compile_crews .insertionOrder "SAILOR"
  refine ⟨by decide +kernel, ?_, ?_, arc.mp (by decide +kernel)⟩
  · rw [all]
    decide +kernel
  · rw [one]
    decide +kernel

end CommitIndex

end ObjectRelational
