import ObjectRelational.Commit.Sorter

set_option autoImplicit false
set_option relaxedAutoImplicit false

/-!
Runs of a sorter. Whatever was asked of it before, a commit order in use is that of the catalog
which is bound; so every answer is the one that a sorter made for this catalog would give.
-/

namespace ObjectRelational

namespace SortAttempt

variable {α : Type} {items : List α} {outcome : Except MappingError (List α)}

theorem faultless_iff : (of items outcome).fault = none ↔ ∃ sorted, outcome = .ok sorted := by
  cases outcome with
  | error e => simp [of]
  | ok sorted => simp [of]

theorem eq_ok_of_faultless (faultless : (of items outcome).fault = none) :
    outcome = .ok (of items outcome).items := by
  obtain ⟨sorted, rfl⟩ := faultless_iff.mp faultless
  rfl

theorem fault_eq_some_iff {e : MappingError} :
    (of items outcome).fault = some e ↔ outcome = .error e := by
  cases outcome with
  | error e' => simp [of]
  | ok sorted => simp [of]

theorem items_of_faulty (faulty : (of items outcome).fault ≠ none) :
    (of items outcome).items = items := by
  cases outcome with
  | error e => rfl
  | ok sorted => exact absurd rfl faulty

end SortAttempt

/-- The ways of using a sorter. -/
inductive SorterCall : Type 1
  | bind (catalog : Catalog)
  | invalidate
  | reindex
  | index
  | rank (table : String)
  | sortTables (delete : Bool) (tables : List Table)
  | sortBy {α : Type} (tableOf : α → String) (delete : Bool) (items : List α)
  | sortRows {R K : Type} [DecidableEq K] (reader : RowReader R K) (table : String)
      (delete : Bool) (rows : List R)

namespace SorterCall

/-- What a call tells: of a commit order what it says, and of a collection what becomes of it. -/
def Answer : SorterCall → Type
  | bind _ | invalidate => Unit
  | reindex | index => Except MappingError CommitIndex
  | rank _ => Except MappingError Nat
  | sortTables .. => SortAttempt Table
  | sortBy (α := α) .. => SortAttempt α
  | sortRows (R := R) .. => SortAttempt R

def catalog? : SorterCall → Option Catalog
  | bind catalog => some catalog
  | _ => none

def keeps : SorterCall → Bool
  | bind _ | invalidate | reindex => false
  | _ => true

def needsIndex : SorterCall → Bool
  | bind _ | invalidate => false
  | _ => true

def refused (e : MappingError) : (q : SorterCall) → q.Answer
  | bind _ | invalidate => ()
  | reindex | index | rank _ => .error e
  | sortTables _ tables => { items := tables, fault := some e }
  | sortBy _ _ items => { items, fault := some e }
  | sortRows _ _ _ rows => { items := rows, fault := some e }

def answerFrom (order : Except MappingError CommitIndex) : (q : SorterCall) → q.Answer
  | bind _ | invalidate => ()
  | reindex | index => order
  | rank table => order.bind fun i => Sorter.requireRank i table
  | sortTables delete tables =>
    .of tables (order.bind fun i => Sorter.sortRanked i (·.name) delete tables)
  | sortBy tableOf delete items =>
    .of items (order.bind fun i => Sorter.sortRanked i tableOf delete items)
  | sortRows reader table delete rows =>
    .of rows (order.bind fun i => do
      let _ ← Sorter.requireRank i table
      reader.sort table (i.reflexiveOn table) delete rows)

end SorterCall

namespace Sorter

def start (policy : CommitPolicy) : Sorter := { policy }

def call (s : Sorter) : (q : SorterCall) → q.Answer × Sorter
  | .bind catalog => ((), s.bind catalog)
  | .invalidate => ((), s.invalidate)
  | .reindex => s.reindex.map (·.map (·.index)) id
  | .index => s.index.map (·.map (·.index)) id
  | .rank table => s.rank table
  | .sortTables delete tables => s.sortTables delete tables
  | .sortBy tableOf delete items => s.sortBy tableOf delete items
  | @SorterCall.sortRows _ _ _ reader table delete rows =>
    s.sortRows reader table delete rows

def callAll (s : Sorter) (calls : List SorterCall) : Sorter :=
  calls.foldl (fun s q => (s.call q).2) s

variable {s : Sorter} {c : Catalog}

private theorem policy_reindex (s : Sorter) : s.reindex.2.policy = s.policy := by
  unfold reindex
  split <;> rfl

private theorem catalog_reindex (s : Sorter) : s.reindex.2.catalog = s.catalog := by
  unfold reindex
  split <;> rfl

private theorem policy_index (s : Sorter) : s.index.2.policy = s.policy := by
  unfold index
  split
  · rfl
  · exact s.policy_reindex

private theorem catalog_index (s : Sorter) : s.index.2.catalog = s.catalog := by
  unfold index
  split
  · rfl
  · exact s.catalog_reindex

private theorem policy_call (s : Sorter) (q : SorterCall) : (s.call q).2.policy = s.policy := by
  cases q with
  | bind _ | invalidate => rfl
  | reindex => exact s.policy_reindex
  | index | rank _ | sortTables _ _ | sortBy _ _ _ | sortRows _ _ _ _ => exact s.policy_index

private theorem catalog_call (s : Sorter) (q : SorterCall) :
    (s.call q).2.catalog = q.catalog?.or s.catalog := by
  cases q with
  | bind _ | invalidate => rfl
  | reindex => exact s.catalog_reindex
  | index | rank _ | sortTables _ _ | sortBy _ _ _ | sortRows _ _ _ _ => exact s.catalog_index

/-- A commit order in use is that of the catalog that is bound. -/
def Current (s : Sorter) : Prop :=
  ∀ snapshot, s.snapshot = some snapshot →
    ∃ c, s.catalog = some c ∧ snapshot.index = .build c s.policy

private theorem current_of_dropped (dropped : s.snapshot = none) : s.Current := by
  intro snapshot inUse
  rw [dropped] at inUse
  cases inUse

namespace Current

private theorem reindex (h : s.Current) : s.reindex.2.Current := by
  unfold Sorter.reindex
  split
  · exact h
  · rename_i catalog bound
    rintro snapshot ⟨⟩
    exact ⟨catalog, bound, rfl⟩

private theorem index (h : s.Current) : s.index.2.Current := by
  unfold Sorter.index
  split
  · exact h
  · exact h.reindex

private theorem call (h : s.Current) (q : SorterCall) : (s.call q).2.Current := by
  cases q with
  | bind _ | invalidate => exact current_of_dropped rfl
  | reindex => exact h.reindex
  | index | rank _ | sortTables _ _ | sortBy _ _ _ | sortRows _ _ _ _ => exact h.index

private theorem snapshot_eq_none (h : s.Current) (unbound : s.catalog = none) :
    s.snapshot = none := by
  cases inUse : s.snapshot with
  | none => rfl
  | some snapshot =>
    obtain ⟨c, bound, -⟩ := h snapshot inUse
    rw [unbound] at bound
    cases bound

private theorem index_eq_of_unbound (h : s.Current) (unbound : s.catalog = none) :
    s.index = (.error .noCatalog, s) := by
  rw [Sorter.index, h.snapshot_eq_none unbound]
  dsimp only
  rw [Sorter.reindex, unbound]

private theorem withIndex_eq_of_unbound {β : Type} (h : s.Current) (unbound : s.catalog = none)
    (f : CommitIndex → Except MappingError β) : s.withIndex f = (.error .noCatalog, s) := by
  rw [withIndex, h.index_eq_of_unbound unbound]
  rfl

theorem call_of_unbound (h : s.Current) (unbound : s.catalog = none) (q : SorterCall)
    (needs : q.needsIndex = true) : s.call q = (q.refused .noCatalog, s) := by
  cases q with
  | bind _ | invalidate => cases needs
  | reindex =>
    rw [Sorter.call, Sorter.reindex, unbound]
    rfl
  | index =>
    rw [Sorter.call, h.index_eq_of_unbound unbound]
    rfl
  | rank _ =>
    rw [Sorter.call, Sorter.rank, h.withIndex_eq_of_unbound unbound]
    rfl
  | sortTables _ _ | sortBy _ _ _ =>
    simp only [Sorter.call, Sorter.sortTables, Sorter.sortBy, h.withIndex_eq_of_unbound unbound]
    rfl
  | sortRows _ _ _ _ =>
    rw [Sorter.call, Sorter.sortRows, h.withIndex_eq_of_unbound unbound]
    rfl

end Current

private theorem callAll_induction {P : Sorter → Prop} {calls : List SorterCall}
    (step : ∀ s, ∀ q ∈ calls, P s → P (s.call q).2) {s : Sorter} (first : P s) :
    P (s.callAll calls) := by
  induction calls generalizing s with
  | nil => exact first
  | cons q calls ih =>
    apply ih
    · intro s q member
      exact step s q (List.mem_cons_of_mem _ member)
    · exact step s q List.mem_cons_self first

private theorem policy_callAll (s : Sorter) (calls : List SorterCall) :
    (s.callAll calls).policy = s.policy :=
  callAll_induction (P := fun t => t.policy = s.policy)
    (fun t q _ kept => (t.policy_call q).trans kept) rfl

private theorem catalog_callAll (s : Sorter) (calls : List SorterCall) :
    (s.callAll calls).catalog = (calls.filterMap SorterCall.catalog?).getLast?.or s.catalog := by
  induction calls generalizing s with
  | nil => rfl
  | cons q calls ih =>
    change ((s.call q).2.callAll calls).catalog = _
    -- a catalog that is bound later replaces that of the first call
    rw [ih, catalog_call]
    cases bound : q.catalog? with
    | none => rw [List.filterMap_cons_none bound, Option.none_or]
    | some c =>
      rw [List.filterMap_cons_some bound, List.getLast?_cons, Option.some_or]
      cases (calls.filterMap SorterCall.catalog?).getLast? <;> rfl

theorem Current.callAll (h : s.Current) (calls : List SorterCall) : (s.callAll calls).Current :=
  callAll_induction (P := Current) (fun _ q _ current => current.call q) h

theorem current_start (policy : CommitPolicy) : (start policy).Current := current_of_dropped rfl

structure GoesBy (s : Sorter) (c : Catalog) (policy : CommitPolicy) : Prop where
  current : s.Current
  bound : s.catalog = some c
  kept : s.policy = policy

theorem goesBy_callAll {policy : CommitPolicy} {calls : List SorterCall}
    (bound : ((start policy).callAll calls).catalog = some c) :
    ((start policy).callAll calls).GoesBy c policy :=
  ⟨(current_start policy).callAll calls, bound, policy_callAll (start policy) calls⟩

private theorem goesBy_ofCatalog (c : Catalog) (policy : CommitPolicy) :
    (ofCatalog c policy).GoesBy c policy :=
  ⟨current_of_dropped rfl, rfl, rfl⟩

namespace GoesBy

variable {policy : CommitPolicy}

theorem call (h : s.GoesBy c policy) {q : SorterCall} (binds : q.catalog? = none) :
    (s.call q).2.GoesBy c policy := by
  refine ⟨h.current.call q, ?_, (s.policy_call q).trans h.kept⟩
  rw [s.catalog_call, binds]
  exact h.bound

private theorem map_index (h : s.GoesBy c policy) :
    s.index.1.map (·.index) = .ok (.build c policy) := by
  unfold Sorter.index
  split
  · rename_i snapshot inUse
    obtain ⟨c', bound, content⟩ := h.current snapshot inUse
    rw [h.bound] at bound
    cases bound
    rw [h.kept] at content
    exact congrArg Except.ok content
  · rw [Sorter.reindex, h.bound, ← h.kept]
    rfl

private theorem withIndex_eq {β : Type} (h : s.GoesBy c policy)
    (f : CommitIndex → Except MappingError β) : (s.withIndex f).1 = f (.build c policy) := by
  have content := h.map_index
  change s.index.1.bind (fun snapshot => f snapshot.index) = _
  cases used : s.index.1 with
  | error e =>
    rw [used] at content
    cases content
  | ok snapshot =>
    rw [used] at content
    exact congrArg f (Except.ok.inj content)

theorem sortBy_eq {α : Type} (h : s.GoesBy c policy) (tableOf : α → String) (delete : Bool)
    (items : List α) : (s.sortBy tableOf delete items).1 =
      .of items (sortRanked (.build c policy) tableOf delete items) :=
  congrArg (SortAttempt.of items) (h.withIndex_eq fun i => sortRanked i tableOf delete items)

theorem sortRows_eq {R K : Type} [DecidableEq K] (h : s.GoesBy c policy)
    (reader : RowReader R K) (table : String) (delete : Bool) (rows : List R) :
    (s.sortRows reader table delete rows).1 =
      .of rows (do
        let _ ← requireRank (.build c policy) table
        reader.sort table ((CommitIndex.build c policy).reflexiveOn table) delete rows) :=
  congrArg (SortAttempt.of rows) (h.withIndex_eq fun i => do
    let _ ← requireRank i table
    reader.sort table (i.reflexiveOn table) delete rows)

private theorem call_eq (h : s.GoesBy c policy) (q : SorterCall) :
    (s.call q).1 = q.answerFrom (.ok (.build c policy)) := by
  cases q with
  | bind _ | invalidate => rfl
  | reindex =>
    simp only [Sorter.call, Sorter.reindex, h.bound, h.kept]
    rfl
  | index => exact h.map_index
  | rank _ => exact h.withIndex_eq _
  | sortTables _ _ | sortBy _ _ _ => exact h.sortBy_eq _ _ _
  | sortRows _ _ _ _ => exact h.sortRows_eq _ _ _ _

end GoesBy

private theorem snapshot_index {snapshot : Snapshot} (used : s.index.1 = .ok snapshot) :
    s.index.2.snapshot = some snapshot := by
  unfold index at used ⊢
  split at used
  · rename_i kept
    rw [kept]
    cases used
    rfl
  · unfold reindex at used ⊢
    split at used
    · cases used
    · cases used
      rfl

private theorem index_of_snapshot {snapshot : Snapshot} (inUse : s.snapshot = some snapshot) :
    s.index = (.ok snapshot, s) := by
  rw [index, inUse]

private theorem snapshot_call {snapshot : Snapshot} (inUse : s.snapshot = some snapshot)
    (q : SorterCall) (keeps : q.keeps = true) : (s.call q).2.snapshot = some snapshot := by
  have unchanged : s.index.2.snapshot = some snapshot := by rw [index_of_snapshot inUse, inUse]
  cases q with
  | bind _ | invalidate | reindex => cases keeps
  | index | rank _ | sortTables _ _ | sortBy _ _ _ | sortRows _ _ _ _ => exact unchanged

/-- Sorters do not depend on their past. Whatever was asked of one, the catalog in use is the last
that was bound and a commit order in use is that of this catalog; every answer is the one that a
sorter made for the catalog gives; the same commit order stays in use until it is dropped; and
before a catalog is bound, calls that need one fail and change nothing. -/
theorem answers_of_bound_catalog (policy : CommitPolicy) (calls : List SorterCall) :
    let s := (start policy).callAll calls
    s.policy = policy ∧ s.catalog = (calls.filterMap SorterCall.catalog?).getLast? ∧
      (∀ snapshot, s.snapshot = some snapshot →
        ∃ c, s.catalog = some c ∧ snapshot.index = .build c policy) ∧
      (∀ c, s.catalog = some c → ∀ q, (s.call q).1 = ((ofCatalog c policy).call q).1) ∧
      (∀ snapshot, s.index.1 = .ok snapshot → ∀ more, (∀ q ∈ more, q.keeps = true) →
        (s.index.2.callAll more).snapshot = some snapshot ∧
          (s.index.2.callAll more).index.1 = .ok snapshot) ∧
      (s.catalog = none → ∀ q, q.needsIndex = true → s.call q = (q.refused .noCatalog, s)) ∧
      MappingError.noCatalog.kind = .precondition := by
  intro s
  have current : s.Current := (current_start policy).callAll calls
  have kept : s.policy = policy := policy_callAll (start policy) calls
  refine ⟨kept, ?_, ?_, ?_, ?_, fun unbound q needs => current.call_of_unbound unbound q needs, rfl⟩
  · exact (catalog_callAll (start policy) calls).trans Option.or_none
  · intro snapshot inUse
    rw [← kept]
    exact current snapshot inUse
  · intro c bound q
    rw [(goesBy_callAll bound).call_eq, (goesBy_ofCatalog c policy).call_eq]
  · intro snapshot used more keeps
    have inUse : (s.index.2.callAll more).snapshot = some snapshot :=
      callAll_induction (P := fun t => t.snapshot = some snapshot)
        (fun t q member inUse => snapshot_call inUse q (keeps q member)) (snapshot_index used)
    refine ⟨inUse, ?_⟩
    rw [index_of_snapshot inUse]

end Sorter

namespace Workshop

def artist : Table where
  name := "ARTIST"
  columns := [.key "ID", { name := "MASTER_ID" }]

def painting : Table where
  name := "PAINTING"
  columns := [.key "ID", { name := "ARTIST_ID" }]

def map : DataMap where
  name := "workshop"
  tables := [painting, artist]
  joins :=
    [{ condition := .single ⟨"MASTER_ID", "ID"⟩
       entities := ⟨"ARTIST", "ARTIST"⟩
       names := ⟨some "master", some "pupils"⟩
       cardinality := .manyToOne },
     { condition := .single ⟨"ARTIST_ID", "ID"⟩
       entities := ⟨"PAINTING", "ARTIST"⟩
       names := ⟨some "artist", some "paintings"⟩
       cardinality := .manyToOne }]

def schema : Catalog :=
  match Catalog.compile [map] {} with
  | (.ok c, _) => c
  | (.error _, _) => ⟨[], [], [], []⟩

theorem compile_map : Catalog.compile [map] {} = (.ok schema, {}) := rfl

end Workshop

namespace Sorter

open Workshop

theorem answers_of_bound_catalog_failed_sort :
    let s := (start {}).callAll [.index, .bind schema, .sortBy id false ["PAINTING", "QUILL"]]
    s.isIndexed = true ∧ s.catalog = some schema ∧
      (s.call (.rank "PAINTING")).1 = ((ofCatalog schema {}).call (.rank "PAINTING")).1 ∧
      ((start {}).call .index).2 = start {} := by
  intro s
  have bound : s.catalog = some schema := rfl
  obtain ⟨-, -, -, fresh, -, -, -⟩ := answers_of_bound_catalog {}
    [.index, .bind schema, .sortBy id false ["PAINTING", "QUILL"]]
  obtain ⟨-, -, -, -, -, refused, -⟩ := answers_of_bound_catalog {} []
  refine ⟨rfl, bound, fresh schema bound (.rank "PAINTING"), ?_⟩
  exact congrArg Prod.snd (refused rfl .index rfl)

end Sorter

end ObjectRelational
