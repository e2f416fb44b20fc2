import ObjectRelational.Proofs.Commit.Rows

set_option autoImplicit false
set_option relaxedAutoImplicit false

/-!
Where the order of a batch leaves rows alone. A row that refers to no other one is written in front
of all that stood behind it, so rows without references between them and the others keep their
order. A batch is deleted in the opposite order, which turns them round.
-/

namespace ObjectRelational

open ObjectRelational.Digraph

namespace RowReader

variable {R K : Type} [DecidableEq K] {reader : RowReader R K}
  {relationships : List Relationship} {rows : List R}

/-- A row of a batch refers to no other one, and no other one refers to it. -/
def Unconstrained (reader : RowReader R K) (relationships : List Relationship) (rows : List R)
    (row : R) : Prop :=
  ∀ other, ¬ reader.Refers relationships rows row other ∧
    ¬ reader.Refers relationships rows other row

omit [DecidableEq K] in
theorem unconstrained_iff {row : R} : reader.Unconstrained relationships rows row ↔
    ∀ other ∈ rows, ¬ reader.Refers relationships rows row other ∧
      ¬ reader.Refers relationships rows other row := by
  constructor
  · exact fun free other _ => free other
  · intro free other
    by_cases member : other ∈ rows
    · exact free other member
    · exact ⟨fun refers => member refers.2.1, fun refers => member refers.1⟩

instance [DecidableEq R] (row master : R) :
    Decidable (reader.Refers relationships rows row master) :=
  inferInstanceAs (Decidable (_ ∧ _ ∧ _ ∧ ∃ r ∈ relationships, _))

instance [DecidableEq R] (row : R) : Decidable (reader.Unconstrained relationships rows row) :=
  decidable_of_iff _ unconstrained_iff.symm

private theorem Distinct.sublist_mastersFirst_of_masterless (distinct : reader.Distinct rows)
    (wellfounded : reader.Wellfounded relationships rows) {row other : R}
    (masterless : ∀ master, ¬ reader.Refers relationships rows row master)
    (before : [row, other].Sublist rows) :
    [row, other].Sublist (reader.mastersFirst relationships rows) := by
  have formed := wellFormed_referenceGraph reader relationships rows
  obtain ⟨first, hfirst⟩ := List.mem_iff_getElem?.mp (before.subset List.mem_cons_self)
  obtain ⟨second, hsecond⟩ :=
    List.mem_iff_getElem?.mp (before.subset (List.mem_cons_of_mem _ List.mem_cons_self))
  have source : ∀ place,
      ¬ (reader.referenceGraph relationships rows).hasArc place first = true := by
    intro place arc
    obtain ⟨row', master, hrow', -, refers⟩ := distinct.hasArc_referenceGraph.mp arc
    obtain rfl : row' = row := Option.some.inj (hrow'.symm.trans hfirst)
    exact masterless master refers
  have preferred : prefersEarlier ((reader.referenceGraph relationships rows).position first)
      ((reader.referenceGraph relationships rows).position second) = true := by
    rw [position_referenceGraph hfirst, position_referenceGraph hsecond]
    exact decide_eq_true
      (lt_of_pair_sublist (List.Nodup.of_map reader.key distinct) before hfirst hsecond)
  exact distinct.sublist_mastersFirst_of_places wellfounded hfirst hsecond
    (formed.sublist_emittedVertices_of_source linear_prefersEarlier
      (mem_vertices_referenceGraph hfirst) source preferred)

private theorem sort_delete (table : String) (listed : relationships ≠ []) (rows : List R) :
    reader.sort table relationships true rows =
      (reader.sort table relationships false rows).map List.reverse := by
  by_cases several : 2 ≤ rows.length
  · rw [sort_eq_map_order listed several, sort_eq_map_order listed several]
    cases reader.order table relationships rows with
    | error e => rfl
    | ok order => exact congrArg Except.ok (List.filterMap_reverse ..)
  · have short : (relationships.isEmpty || decide (rows.length < 2)) = true := by
      simp only [Bool.or_eq_true, decide_eq_true_eq]
      omega
    rw [sort, sort, short]
    rcases rows with _ | ⟨row, _ | ⟨other, rest⟩⟩
    · rfl
    · rfl
    · exact absurd (Nat.le_add_left 2 rest.length) several

private theorem sublist_of_sort_unconstrained {table : String} {sorted : List R} {row other : R}
    (listed : relationships ≠ []) (done : reader.sort table relationships false rows = .ok sorted)
    (free : reader.Unconstrained relationships rows row) (before : [row, other].Sublist rows) :
    [row, other].Sublist sorted := by
  obtain ⟨distinct, wellfounded, rfl⟩ := (sort_eq_ok_iff listed before.length_le).mp done
  exact distinct.sublist_mastersFirst_of_masterless wellfounded (fun other => (free other).1) before

end RowReader

namespace Sorter

variable {R K : Type} [DecidableEq K] {c : Catalog} {table : String}

open RowReader in
/-- Rows that refer to no other row of their batch and that no other one refers to are written in
the order in which they stood. Deletion takes the whole batch the other way round, and them with
it. -/
theorem sortRows_unconstrained {policy : CommitPolicy} {calls : List SorterCall}
    (bound : ((start policy).callAll calls).catalog = some c)
    (indexed : ((CommitIndex.build c policy).rank? table).isSome = true)
    (reflexive : (CommitIndex.build c policy).isReflexive table = true) (reader : RowReader R K)
    (rows : List R) :
    let s := (start policy).callAll calls
    let relationships := (CommitIndex.build c policy).reflexiveOn table
    let sorting := fun delete => s.sortRows reader table delete rows
    ((sorting false).1.fault = none →
      (sorting true).1 = { items := (sorting false).1.items.reverse }) ∧
    ∀ row other, reader.Unconstrained relationships rows row →
      reader.Unconstrained relationships rows other → [row, other].Sublist rows →
      ((sorting false).1.fault = none → [row, other].Sublist (sorting false).1.items) ∧
      ((sorting true).1.fault = none → [other, row].Sublist (sorting true).1.items) := by
  intro s relationships sorting
  have goes : s.GoesBy c policy := goesBy_callAll bound
  have listed : relationships ≠ [] := by simpa [CommitIndex.isReflexive] using reflexive
  have written : (sorting false).1 = .of rows (reader.sort table relationships false rows) :=
    goes.sortRows_eq_sort indexed reader false rows
  have deleted : (sorting true).1 =
      .of rows ((reader.sort table relationships false rows).map List.reverse) := by
    rw [← sort_delete table listed]
    exact goes.sortRows_eq_sort indexed reader true rows
  rw [written, deleted]
  cases outcome : reader.sort table relationships false rows with
  | error e =>
    have faulty : (SortAttempt.of rows (.error e)).fault ≠ none := Option.some_ne_none e
    exact ⟨fun done => absurd done faulty, fun _ _ _ _ _ =>
      ⟨fun done => absurd done faulty, fun done => absurd done faulty⟩⟩
  | ok sorted =>
    refine ⟨fun _ => rfl, fun row other free _ before => ?_⟩
    have kept := sublist_of_sort_unconstrained listed outcome free before
    exact ⟨fun _ => kept, fun _ => kept.reverse⟩

open Workshop

theorem sortRows_unconstrained_artists :
    let s := (start {}).callAll [.bind schema]
    let relationships := (CommitIndex.build schema {}).reflexiveOn "ARTIST"
    let rows := [(7, none), (2, some 1), (5, some 5), (1, none)]
    s.catalog = some schema ∧ ((CommitIndex.build schema {}).rank? "ARTIST").isSome = true ∧
      (CommitIndex.build schema {}).isReflexive "ARTIST" = true ∧
      numbered.Unconstrained relationships rows (7, none) ∧
      numbered.Unconstrained relationships rows (5, some 5) ∧
      (s.sortRows numbered "ARTIST" false rows).1 =
        { items := [(7, none), (5, some 5), (1, none), (2, some 1)] } ∧
      (s.sortRows numbered "ARTIST" true rows).1 =
        { items := [(2, some 1), (1, none), (5, some 5), (7, none)] } ∧
      [(5, some 5), (7, none)].Sublist (s.sortRows numbered "ARTIST" true rows).1.items := by
  intro s relationships rows
  have bound : s.catalog = some schema := rfl
  have indexed : ((CommitIndex.build schema {}).rank? "ARTIST").isSome = true := by
    decide +kernel
  have reflexive : (CommitIndex.build schema {}).isReflexive "ARTIST" = true := by
    decide +kernel
  have free : numbered.Unconstrained relationships rows (7, none) := by decide +kernel
  have free' : numbered.Unconstrained relationships rows (5, some 5) := by decide +kernel
  have before : [(7, none), (5, some 5)].Sublist rows := by decide
  have written : (s.sortRows numbered "ARTIST" false rows).1 =
      { items := [(7, none), (5, some 5), (1, none), (2, some 1)] } := by decide +kernel
  have faultless : (s.sortRows numbered "ARTIST" true rows).1.fault = none := by decide +kernel
  obtain ⟨reversed, kept⟩ :=
    sortRows_unconstrained bound indexed reflexive numbered rows
  have deleted : (s.sortRows numbered "ARTIST" true rows).1 =
      { items := [(2, some 1), (1, none), (5, some 5), (7, none)] } := by
    rw [reversed (congrArg SortAttempt.fault written), written]
    rfl
  obtain ⟨-, apart⟩ := kept _ _ free free' before
  exact ⟨bound, indexed, reflexive, free, free', written, deleted, apart faultless⟩

/-- Two rows that have nothing to do with each other are deleted in the opposite order. -/
theorem sortRows_delete_reverses :
    let s := (start {}).callAll [.bind schema]
    let relationships := (CommitIndex.build schema {}).reflexiveOn "ARTIST"
    let rows := [(1, none), (2, none)]
    (CommitIndex.build schema {}).isReflexive "ARTIST" = true ∧
      numbered.Unconstrained relationships rows (1, none) ∧
      numbered.Unconstrained relationships rows (2, none) ∧
      (s.sortRows numbered "ARTIST" true rows).1 = { items := [(2, none), (1, none)] } ∧
      ¬ [(1, none), (2, none)].Sublist (s.sortRows numbered "ARTIST" true rows).1.items := by
  decide +kernel

end Sorter

end ObjectRelational
