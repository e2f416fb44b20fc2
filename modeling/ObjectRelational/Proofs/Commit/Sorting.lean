import ObjectRelational.Proofs.Commit.Index
import ObjectRelational.Proofs.Commit.Runs
import ObjectRelational.Proofs.Order.StableSort

set_option autoImplicit false
set_option relaxedAutoImplicit false

/-!
Items sorted by the ranks of their tables. They come out exactly when all tables are known; then
no item stands in front of one whose table it refers to, and items of one rank stand as they did.
-/

namespace ObjectRelational

open ObjectRelational.Order

namespace CommitIndex

variable {α : Type} {i : CommitIndex} {tableOf : α → String} {delete : Bool} {items : List α}

def rankOf (i : CommitIndex) (tableOf : α → String) (item : α) : Nat :=
  (i.rank? (tableOf item)).getD 0

def inFront (i : CommitIndex) (tableOf : α → String) (delete : Bool) (a b : α) : Bool :=
  Sorter.precedes delete (a, i.rankOf tableOf a) (b, i.rankOf tableOf b)

/-- The items by rank, or the other way round if they are to be deleted. -/
def arrange (i : CommitIndex) (tableOf : α → String) (delete : Bool) (items : List α) : List α :=
  stableSort (i.inFront tableOf delete) items

private theorem inFront_eq_false_iff {a b : α} : i.inFront tableOf delete b a = false ↔
    if delete then i.rankOf tableOf b ≤ i.rankOf tableOf a
    else i.rankOf tableOf a ≤ i.rankOf tableOf b := by
  unfold inFront Sorter.precedes
  cases delete <;> simp

private theorem inFront_total (a b : α) :
    i.inFront tableOf delete b a = false ∨ i.inFront tableOf delete a b = false := by
  rw [inFront_eq_false_iff, inFront_eq_false_iff]
  cases delete with
  | false => exact Nat.le_total _ _
  | true => exact Nat.le_total _ _

private theorem inFront_trans (a b d : α) (first : i.inFront tableOf delete b a = false)
    (second : i.inFront tableOf delete d b = false) : i.inFront tableOf delete d a = false := by
  rw [inFront_eq_false_iff] at first second ⊢
  cases delete with
  | false => exact Nat.le_trans first second
  | true => exact Nat.le_trans second first

private theorem arrange_perm (i : CommitIndex) (tableOf : α → String) (delete : Bool)
    (items : List α) : (i.arrange tableOf delete items).Perm items := stableSort_perm _ _

private theorem pairwise_arrange (i : CommitIndex) (tableOf : α → String) (delete : Bool)
    (items : List α) :
    (i.arrange tableOf delete items).Pairwise fun a b => i.inFront tableOf delete b a = false :=
  pairwise_stableSort _ inFront_total inFront_trans items

private theorem filter_arrange (i : CommitIndex) (tableOf : α → String) (delete : Bool)
    (items : List α) (rank : Nat) :
    (i.arrange tableOf delete items).filter (i.rankOf tableOf · == rank) =
      items.filter (i.rankOf tableOf · == rank) := by
  refine filter_stableSort fun a _ b _ ha hb => ?_
  have tied : i.rankOf tableOf a = i.rankOf tableOf b := (eq_of_beq ha).trans (eq_of_beq hb).symm
  rw [inFront_eq_false_iff, tied]
  cases delete <;> exact Nat.le_refl _

private theorem arrange_arrange (i : CommitIndex) (tableOf : α → String) (delete : Bool)
    (items : List α) : i.arrange tableOf delete (i.arrange tableOf delete items) =
      i.arrange tableOf delete items :=
  stableSort_of_pairwise (i.pairwise_arrange tableOf delete items)

private theorem arrange_eq_of_perm {others : List α} (delete : Bool) (perm : items.Perm others)
    (differ : (items.map (i.rankOf tableOf)).Nodup) :
    i.arrange tableOf delete items = i.arrange tableOf delete others := by
  refine stableSort_eq_of_perm _ inFront_total inFront_trans perm fun a ha b hb first second => ?_
  rw [inFront_eq_false_iff] at first second
  have tied : i.rankOf tableOf a = i.rankOf tableOf b := by
    cases delete with
    | false => exact Nat.le_antisymm first second
    | true => exact Nat.le_antisymm second first
  exact List.inj_on_of_nodup_map differ ha hb tied

private theorem rank?_eq_rankOf {item : α} (ranked : (i.rank? (tableOf item)).isSome = true) :
    i.rank? (tableOf item) = some (i.rankOf tableOf item) := by
  obtain ⟨rank, found⟩ := Option.isSome_iff_exists.mp ranked
  rw [rankOf, found]
  rfl

private theorem requireRank_eq {item : α} (ranked : (i.rank? (tableOf item)).isSome = true) :
    Sorter.requireRank i (tableOf item) = .ok (i.rankOf tableOf item) := by
  rw [Sorter.requireRank, rank?_eq_rankOf ranked]

private theorem sortRanked_eq (delete : Bool)
    (ranked : ∀ item ∈ items, (i.rank? (tableOf item)).isSome = true) :
    Sorter.sortRanked i tableOf delete items = .ok (i.arrange tableOf delete items) := by
  have paired : (items.mapM fun item => do
      return (item, ← Sorter.requireRank i (tableOf item))) =
        Except.ok (items.map fun item => (item, i.rankOf tableOf item)) := by
    rw [mapM_ok_iff_forall₂, List.forall₂_map_right_iff, List.forall₂_same]
    intro item member
    rw [requireRank_eq (ranked item member)]
    rfl
  rw [Sorter.sortRanked, paired]
  refine congrArg Except.ok ?_
  rw [← map_stableSort fun item => (item, i.rankOf tableOf item), List.map_map]
  exact List.map_id' _

private theorem exists_of_sortRanked_eq_error {e : MappingError}
    (failed : Sorter.sortRanked i tableOf delete items = .error e) :
    ∃ item ∈ items, i.rank? (tableOf item) = none ∧ e = .unindexedTable (tableOf item) := by
  rcases of_bind_eq_error failed with unpaired | ⟨pairs, -, impossible⟩
  · obtain ⟨item, member, step⟩ := exists_of_mapM_eq_error unpaired
    refine ⟨item, member, ?_⟩
    rcases of_bind_eq_error step with unranked | ⟨rank, -, impossible⟩
    · unfold Sorter.requireRank at unranked
      split at unranked
      · cases unranked
      · rename_i none_found
        cases unranked
        exact ⟨none_found, rfl⟩
    · cases impossible
  · cases impossible

private theorem sortRanked_eq_ok_iff {sorted : List α} :
    Sorter.sortRanked i tableOf delete items = .ok sorted ↔
      (∀ item ∈ items, (i.rank? (tableOf item)).isSome = true) ∧
        sorted = i.arrange tableOf delete items := by
  constructor
  · intro done
    have ranked : ∀ item ∈ items, (i.rank? (tableOf item)).isSome = true := by
      intro item member
      obtain ⟨pairs, paired, -⟩ := bind_eq_ok_iff.mp done
      obtain ⟨pair, -, step⟩ := exists_right_of_forall₂ (mapM_ok_iff_forall₂.mp paired) member
      obtain ⟨rank, required, -⟩ := bind_eq_ok_iff.mp step
      cases found : i.rank? (tableOf item) with
      | some _ => rfl
      | none =>
        rw [Sorter.requireRank, found] at required
        cases required
    rw [sortRanked_eq delete ranked] at done
    exact ⟨ranked, (Except.ok.inj done).symm⟩
  · rintro ⟨ranked, rfl⟩
    exact sortRanked_eq delete ranked

private theorem sortRanked_of_eq_ok {sorted : List α}
    (done : Sorter.sortRanked i tableOf delete items = .ok sorted) :
    Sorter.sortRanked i tableOf delete sorted = .ok sorted := by
  obtain ⟨ranked, rfl⟩ := sortRanked_eq_ok_iff.mp done
  have perm := i.arrange_perm tableOf delete items
  refine sortRanked_eq_ok_iff.mpr ⟨fun item member => ?_, ?_⟩
  · exact ranked item (perm.mem_iff.mp member)
  · exact (i.arrange_arrange tableOf delete items).symm

private theorem sortRanked_of_perm {sorted others : List α}
    (done : Sorter.sortRanked i tableOf delete items = .ok sorted) (perm : others.Perm items)
    (differ : (items.map fun item => i.rank? (tableOf item)).Nodup) :
    Sorter.sortRanked i tableOf delete others = .ok sorted := by
  obtain ⟨ranked, rfl⟩ := sortRanked_eq_ok_iff.mp done
  have ranks : (items.map fun item => i.rank? (tableOf item)) =
      (items.map (i.rankOf tableOf)).map some := by
    rw [List.map_map]
    exact List.map_congr_left fun item member => rank?_eq_rankOf (ranked item member)
  rw [ranks] at differ
  refine sortRanked_eq_ok_iff.mpr ⟨fun item member => ?_, ?_⟩
  · exact ranked item (perm.mem_iff.mp member)
  · exact arrange_eq_of_perm delete perm.symm (List.Nodup.of_map some differ)

/-- One table is written no later than another. -/
def NoLater (i : CommitIndex) (t u : String) : Prop :=
  ∃ m n, i.rank? t = some m ∧ i.rank? u = some n ∧ m ≤ n

/-- A collection of items in the order in which they are written, or deleted. -/
structure Arranged (c : Catalog) (i : CommitIndex) (tableOf : α → String) (delete : Bool)
    (items sorted : List α) : Prop where
  perm : sorted.Perm items
  byRank : sorted.Pairwise fun a b =>
    if delete then i.NoLater (tableOf b) (tableOf a) else i.NoLater (tableOf a) (tableOf b)
  stable : ∀ rank, sorted.filter (fun item => i.rank? (tableOf item) == some rank) =
    items.filter (fun item => i.rank? (tableOf item) == some rank)
  /-- No item stands in front of one of another group that its table refers to, or behind it if
  they are deleted. -/
  byReference : ∀ r ∈ c.sides, r.Constraining → i.group? r.target.name ≠ i.group? r.source.name →
    sorted.Pairwise fun a b =>
      if delete then ¬ (tableOf a = r.target.name ∧ tableOf b = r.source.name)
      else ¬ (tableOf a = r.source.name ∧ tableOf b = r.target.name)

private theorem NoLater.not_refers {c : Catalog} {policy : CommitPolicy} (h : c.Resolved)
    {r : Relationship} (side : r ∈ c.sides) (constraining : r.Constraining)
    (apart : (build c policy).group? r.target.name ≠ (build c policy).group? r.source.name)
    {t u : String} (noLater : (build c policy).NoLater t u) :
    ¬ (t = r.source.name ∧ u = r.target.name) := by
  rintro ⟨rfl, rfl⟩
  obtain ⟨m, n, source, target, le⟩ := noLater
  obtain ⟨n', m', target', source', lt⟩ := rank_lt_of_group_ne h policy side constraining apart
  have same : m = m' := Option.some.inj (source.symm.trans source')
  have same' : n = n' := Option.some.inj (target.symm.trans target')
  omega

private theorem arranged_arrange {c : Catalog} (h : c.Resolved) (policy : CommitPolicy)
    (delete : Bool)
    (ranked : ∀ item ∈ items, ((build c policy).rank? (tableOf item)).isSome = true) :
    Arranged c (build c policy) tableOf delete items
      ((build c policy).arrange tableOf delete items) := by
  have perm := (build c policy).arrange_perm tableOf delete items
  have found : ∀ item ∈ (build c policy).arrange tableOf delete items,
      (build c policy).rank? (tableOf item) = some ((build c policy).rankOf tableOf item) :=
    fun item member => rank?_eq_rankOf (ranked item (perm.mem_iff.mp member))
  have byRank : ((build c policy).arrange tableOf delete items).Pairwise fun a b =>
      if delete then (build c policy).NoLater (tableOf b) (tableOf a)
      else (build c policy).NoLater (tableOf a) (tableOf b) := by
    refine ((build c policy).pairwise_arrange tableOf delete items).imp_of_mem ?_
    intro a b ha hb behind
    rw [inFront_eq_false_iff] at behind
    cases delete with
    | false => exact ⟨_, _, found a ha, found b hb, behind⟩
    | true => exact ⟨_, _, found b hb, found a ha, behind⟩
  refine ⟨perm, byRank, fun rank => ?_, fun r side constraining apart => byRank.imp ?_⟩
  · have chosen : ∀ item, (build c policy).rank? (tableOf item) =
        some ((build c policy).rankOf tableOf item) →
          ((build c policy).rank? (tableOf item) == some rank) =
            ((build c policy).rankOf tableOf item == rank) := by
      intro item same
      rw [same]
      rfl
    rw [List.filter_congr fun item member => chosen item (found item member),
      filter_arrange]
    exact (List.filter_congr fun item member =>
      chosen item (rank?_eq_rankOf (ranked item member))).symm
  · intro a b noLater
    cases delete with
    | false => exact noLater.not_refers h side constraining apart
    | true => exact fun both => noLater.not_refers h side constraining apart both.symm

end CommitIndex

namespace Sorter

variable {α : Type} {s : Sorter} {c : Catalog}

/-- Items are sorted exactly when the catalog has all of their tables, and then by the ranks of
these; sorted again they stay as they are, and items of different ranks come out in one order
however they stood. Over an unknown table, and before a catalog is bound, they stay untouched. -/
theorem sortBy_arranges {maps : List DataMap} {supply after : NameSupply}
    (compiled : Catalog.compile maps supply = (.ok c, after)) {policy : CommitPolicy}
    {calls : List SorterCall} (bound : ((start policy).callAll calls).catalog = some c)
    (tableOf : α → String) (items : List α) :
    let s := (start policy).callAll calls
    let i := CommitIndex.build c policy
    let sorting := fun delete => s.sortBy tableOf delete items
    (∀ delete, (sorting delete).1.fault = none ↔
      ∀ item ∈ items, (c.table? (tableOf item)).isSome = true) ∧
    (∀ delete, (sorting delete).1.fault = none →
      CommitIndex.Arranged c i tableOf delete items (sorting delete).1.items) ∧
    (∀ delete, (sorting delete).1.fault = none →
      ((sorting delete).2.sortBy tableOf delete (sorting delete).1.items).1 =
        { items := (sorting delete).1.items }) ∧
    (∀ delete, (sorting delete).1.fault = none → ∀ others, others.Perm items →
      (items.map fun item => i.rank? (tableOf item)).Nodup →
        (s.sortBy tableOf delete others).1 = (sorting delete).1) ∧
    (∀ delete, (sorting delete).1.fault ≠ none → (sorting delete).1.items = items ∧
      ∃ item ∈ items, c.table? (tableOf item) = none ∧
        (sorting delete).1.fault = some (.unindexedTable (tableOf item)) ∧
        (MappingError.unindexedTable (tableOf item)).kind = .schemaResolution) ∧
    (∀ idle, ((start policy).callAll idle).catalog = none → ∀ delete,
      ((start policy).callAll idle).sortBy tableOf delete items =
        ({ items, fault := some .noCatalog }, (start policy).callAll idle)) ∧
    MappingError.noCatalog.kind = .precondition ∧
    ∀ delete tables, s.sortTables delete tables = s.sortBy (·.name) delete tables := by
  intro s i sorting
  have resolved := Catalog.resolved_of_compile compiled
  have goes : s.GoesBy c policy := goesBy_callAll bound
  have known : ∀ item, (i.rank? (tableOf item)).isSome = true ↔
      (c.table? (tableOf item)).isSome = true := fun item =>
    CommitIndex.rank?_isSome_iff resolved policy (tableOf item)
  have answers : ∀ delete, (sorting delete).1 = .of items (sortRanked i tableOf delete items) :=
    fun delete => goes.sortBy_eq tableOf delete items
  have done : ∀ delete, (sorting delete).1.fault = none →
      sortRanked i tableOf delete items = .ok (sorting delete).1.items := by
    intro delete faultless
    rw [answers] at faultless ⊢
    exact SortAttempt.eq_ok_of_faultless faultless
  refine ⟨fun delete => ?_, fun delete faultless => ?_, fun delete faultless => ?_,
    fun delete faultless others perm differ => ?_, fun delete faulty => ?_,
    fun idle unbound delete => ?_, rfl, fun _ _ => rfl⟩
  · rw [answers, SortAttempt.faultless_iff]
    simp only [CommitIndex.sortRanked_eq_ok_iff, exists_and_left, exists_eq, and_true, known]
  · obtain ⟨ranked, sorted⟩ := CommitIndex.sortRanked_eq_ok_iff.mp (done delete faultless)
    rw [sorted]
    exact CommitIndex.arranged_arrange resolved policy delete ranked
  · have next : (sorting delete).2.GoesBy c policy :=
      goes.call (q := .sortBy tableOf delete items) rfl
    rw [next.sortBy_eq]
    exact congrArg (SortAttempt.of _) (CommitIndex.sortRanked_of_eq_ok (done delete faultless))
  · have sorted := done delete faultless
    rw [goes.sortBy_eq, answers, CommitIndex.sortRanked_of_perm sorted perm differ, sorted]
    rfl
  · obtain ⟨e, fault⟩ := Option.ne_none_iff_exists'.mp faulty
    have failed := fault
    rw [answers] at failed
    obtain ⟨item, member, unranked, rfl⟩ :=
      CommitIndex.exists_of_sortRanked_eq_error (SortAttempt.fault_eq_some_iff.mp failed)
    refine ⟨?_, item, member, ?_, fault, rfl⟩
    · rw [answers] at faulty ⊢
      exact SortAttempt.items_of_faulty faulty
    · have unknown := mt (known item).mpr (Option.not_isSome_iff_eq_none.mpr unranked)
      exact Option.not_isSome_iff_eq_none.mp unknown
  · have idle_current : ((start policy).callAll idle).Current :=
      (current_start policy).callAll idle
    exact idle_current.call_of_unbound unbound (.sortBy tableOf delete items) rfl

open Workshop in
theorem sortBy_arranges_deletion :
    let s := (start {}).callAll [.bind schema]
    let items := [(1, "ARTIST"), (2, "PAINTING"), (3, "ARTIST"), (4, "PAINTING")]
    let sorted := [(2, "PAINTING"), (4, "PAINTING"), (1, "ARTIST"), (3, "ARTIST")]
    Catalog.compile [map] {} = (.ok schema, {}) ∧ s.catalog = some schema ∧
      (s.sortBy Prod.snd true items).1 = { items := sorted } ∧
      CommitIndex.Arranged schema (.build schema {}) Prod.snd true items sorted := by
  intro s items sorted
  have bound : s.catalog = some schema := rfl
  have outcome : (s.sortBy Prod.snd true items).1 = { items := sorted } := by decide +kernel
  obtain ⟨-, arranged, -⟩ := sortBy_arranges compile_map bound Prod.snd items
  refine ⟨compile_map, bound, outcome, ?_⟩
  have order := arranged true (congrArg SortAttempt.fault outcome)
  rw [outcome] at order
  exact order

end Sorter

end ObjectRelational
