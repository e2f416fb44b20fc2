import ObjectRelational.Proofs.Commit.Runs
import ObjectRelational.Proofs.Digraph.Built
import ObjectRelational.Proofs.Digraph.Condensation
import ObjectRelational.Proofs.Digraph.Greedy

set_option autoImplicit false
set_option relaxedAutoImplicit false

/-!
The order of the rows of a batch. There is one exactly when the keys tell the rows apart and no row
refers to itself through others; then it puts every row behind those that it refers to, and leaves
a batch alone that is in order.
-/

namespace ObjectRelational

open Relation
open ObjectRelational.Digraph

namespace RowReader

variable {R K : Type} [DecidableEq K] {reader : RowReader R K}
  {relationships : List Relationship} {rows : List R}

/-- A row of a batch refers to another one through one of the relationships. -/
def Refers (reader : RowReader R K) (relationships : List Relationship) (rows : List R)
    (row master : R) : Prop :=
  row ∈ rows ∧ master ∈ rows ∧ reader.key row ≠ reader.key master ∧
    ∃ r ∈ relationships, reader.reference r row = some (reader.key master)

/-- Keys tell the rows of a batch apart. -/
def Distinct (reader : RowReader R K) (rows : List R) : Prop := (rows.map reader.key).Nodup

/-- No row of a batch refers to itself through others. -/
def Wellfounded (reader : RowReader R K) (relationships : List Relationship) (rows : List R) :
    Prop :=
  ∀ row, ¬ TransGen (reader.Refers relationships rows) row row

private theorem repeatedKey?_eq_none_iff :
    reader.repeatedKey? rows = none ↔ reader.Distinct rows := by
  simp only [repeatedKey?, Distinct, List.findSome?_eq_none_iff, Prod.forall,
    List.mem_zipIdx_iff_getElem?, Option.map_eq_none_iff, List.idxOf?_eq_none_iff,
    List.nodup_iff_pairwise_ne, List.pairwise_iff_getElem]
  generalize rows.map reader.key = keys
  constructor
  · intro fresh i j hi hj lt same
    refine fresh keys[j] j (List.getElem?_eq_getElem hj) (List.mem_take_iff_getElem.mpr ?_)
    exact ⟨i, by omega, same⟩
  · intro differ key j found member
    obtain ⟨hj, rfl⟩ := List.getElem?_eq_some_iff.mp found
    obtain ⟨i, hi, same⟩ := List.mem_take_iff_getElem.mp member
    exact differ i j (by omega) hj (by omega) same

private theorem Distinct.idxOf?_eq_some_iff (distinct : reader.Distinct rows) {key : K}
    {position : Nat} : (rows.map reader.key).idxOf? key = some position ↔
      ∃ row, rows[position]? = some row ∧ reader.key row = key := by
  rw [List.idxOf?_eq_some_iff]
  constructor
  · rintro ⟨inside, rfl, -⟩
    rw [List.length_map] at inside
    exact ⟨rows[position], List.getElem?_eq_getElem inside, by simp⟩
  · rintro ⟨row, found, rfl⟩
    obtain ⟨inside, rfl⟩ := List.getElem?_eq_some_iff.mp found
    refine ⟨by simpa using inside, by simp, fun earlier lt same => ?_⟩
    have differ := List.pairwise_iff_getElem.mp (List.nodup_iff_pairwise_ne.mp distinct)
      earlier position (by simp; omega) (by simpa using inside) lt
    exact differ (by simpa using same)

private theorem Distinct.position_eq (distinct : reader.Distinct rows) {i j : Nat} {row row' : R}
    (hi : rows[i]? = some row) (hj : rows[j]? = some row')
    (same : reader.key row = reader.key row') : i = j := by
  have found := distinct.idxOf?_eq_some_iff.mpr ⟨row, hi, same⟩
  rw [distinct.idxOf?_eq_some_iff.mpr ⟨row', hj, rfl⟩] at found
  exact (Option.some.inj found).symm

private theorem mem_references_iff {first second : Nat} :
    (first, second) ∈ reader.references relationships rows ↔
      ∃ row, rows[second]? = some row ∧ first ≠ second ∧ ∃ r ∈ relationships, ∃ key,
        reader.reference r row = some key ∧ (rows.map reader.key).idxOf? key = some first := by
  simp only [references, masters, List.mem_flatMap, Prod.exists, List.mem_zipIdx_iff_getElem?,
    List.mem_map, Prod.mk.injEq, List.mem_filterMap, Option.bind_eq_bind, Option.bind_eq_some_iff]
  constructor
  · rintro ⟨row, position, hrow, master, ⟨r, hr, key, reference, target, found, other⟩, rfl, rfl⟩
    split at other
    · cases other
    · rename_i differ
      obtain rfl := Option.some.inj other
      exact ⟨row, hrow, differ, r, hr, key, reference, found⟩
  · rintro ⟨row, hrow, differ, r, hr, key, reference, found⟩
    exact ⟨row, second, hrow, first, ⟨r, hr, key, reference, first, found, if_neg differ⟩, rfl, rfl⟩

private theorem referenceGraph_spec :
    (reader.referenceGraph relationships rows).Built ∧
      (reader.referenceGraph relationships rows).vertices = List.range rows.length ∧
      ∀ first second, (reader.referenceGraph relationships rows).hasArc first second = true ↔
        (first, second) ∈ reader.references relationships rows := by
  have lays : Lays (fun (g : Digraph Nat Unit) (arc : Nat × Nat) => g.putArc arc.1 arc.2 ())
      Prod.fst Prod.snd :=
    { built := fun built => .putArc _ _ _ built
      vertices := fun first second => vertices_putArc first second _
      arcs := fun built first second => built.wellFormed.hasArc_putArc first second _ }
  have inside : ∀ arc ∈ reader.references relationships rows,
      arc.1 ∈ List.range rows.length ∧ arc.2 ∈ List.range rows.length := by
    rintro ⟨first, second⟩ member
    obtain ⟨row, hrow, -, r, -, key, -, found⟩ := mem_references_iff.mp member
    have first_lt := (List.idxOf?_eq_some_iff.mp found).1
    rw [List.mem_range, List.mem_range]
    exact ⟨by simpa using first_lt, (List.getElem?_eq_some_iff.mp hrow).1⟩
  obtain ⟨built, vertices, arcs⟩ := lays.foldl_ofVertices List.nodup_range inside
  refine ⟨built, vertices, fun first second => (arcs first second).trans ?_⟩
  simp

theorem wellFormed_referenceGraph (reader : RowReader R K) (relationships : List Relationship)
    (rows : List R) : (reader.referenceGraph relationships rows).WellFormed :=
  referenceGraph_spec.1.wellFormed

private theorem vertices_referenceGraph :
    (reader.referenceGraph relationships rows).vertices = List.range rows.length :=
  referenceGraph_spec.2.1

theorem position_referenceGraph {place : Nat} {row : R} (found : rows[place]? = some row) :
    (reader.referenceGraph relationships rows).position place = place := by
  have inside := (List.getElem?_eq_some_iff.mp found).1
  refine (wellFormed_referenceGraph reader relationships rows).position_eq ?_
  rw [vertices_referenceGraph, List.getElem?_range inside]

/-- An arc leads from the place of a row to that of a row that refers to it. -/
theorem Distinct.hasArc_referenceGraph (distinct : reader.Distinct rows) {first second : Nat} :
    (reader.referenceGraph relationships rows).hasArc first second = true ↔
      ∃ row master, rows[second]? = some row ∧ rows[first]? = some master ∧
        reader.Refers relationships rows row master := by
  rw [referenceGraph_spec.2.2, mem_references_iff]
  constructor
  · rintro ⟨row, hrow, differ, r, hr, key, reference, found⟩
    obtain ⟨master, hmaster, rfl⟩ := distinct.idxOf?_eq_some_iff.mp found
    refine ⟨row, master, hrow, hmaster, List.mem_of_getElem? hrow, List.mem_of_getElem? hmaster,
      fun same => differ ?_, r, hr, reference⟩
    exact distinct.position_eq hmaster hrow same.symm
  · rintro ⟨row, master, hrow, hmaster, -, -, differ, r, hr, reference⟩
    refine ⟨row, hrow, ?_, r, hr, _, reference,
      distinct.idxOf?_eq_some_iff.mpr ⟨master, hmaster, rfl⟩⟩
    rintro rfl
    rw [hrow] at hmaster
    exact differ (congrArg reader.key (Option.some.inj hmaster))

private theorem Distinct.refers_of_walk (distinct : reader.Distinct rows) {first last : Nat}
    (walk : TransGen (fun p q => (reader.referenceGraph relationships rows).hasArc p q = true)
      first last) :
    ∃ row master, rows[last]? = some row ∧ rows[first]? = some master ∧
      TransGen (reader.Refers relationships rows) row master := by
  induction walk with
  | single arc =>
    obtain ⟨row, master, hrow, hmaster, refers⟩ := distinct.hasArc_referenceGraph.mp arc
    exact ⟨row, master, hrow, hmaster, .single refers⟩
  | tail _ arc ih =>
    obtain ⟨middle, master, hmiddle, hmaster, refers⟩ := ih
    obtain ⟨row, middle', hrow, hmiddle', direct⟩ := distinct.hasArc_referenceGraph.mp arc
    obtain rfl : middle' = middle := Option.some.inj (hmiddle'.symm.trans hmiddle)
    exact ⟨row, master, hrow, hmaster, .head direct refers⟩

private theorem Distinct.walk_of_refers (distinct : reader.Distinct rows) {row master : R}
    (refers : TransGen (reader.Refers relationships rows) row master) {first last : Nat}
    (hfirst : rows[first]? = some master) (hlast : rows[last]? = some row) :
    TransGen (fun p q => (reader.referenceGraph relationships rows).hasArc p q = true)
      first last := by
  induction refers generalizing first with
  | single direct =>
    exact .single (distinct.hasArc_referenceGraph.mpr ⟨row, _, hlast, hfirst, direct⟩)
  | tail _ direct ih =>
    obtain ⟨middle, hmiddle⟩ := List.mem_iff_getElem?.mp direct.1
    exact .head (distinct.hasArc_referenceGraph.mpr ⟨_, _, hmiddle, hfirst, direct⟩) (ih hmiddle)

private theorem Distinct.acyclic_referenceGraph_iff (distinct : reader.Distinct rows) :
    (reader.referenceGraph relationships rows).Acyclic ↔ reader.Wellfounded relationships rows := by
  constructor
  · intro acyclic row circle
    obtain ⟨_, first, -⟩ := TransGen.head'_iff.mp circle
    obtain ⟨position, found⟩ := List.mem_iff_getElem?.mp first.1
    exact acyclic position (distinct.walk_of_refers circle found found)
  · intro wellfounded position cycle
    obtain ⟨row, master, hrow, hmaster, refers⟩ := distinct.refers_of_walk cycle
    obtain rfl : row = master := Option.some.inj (hrow.symm.trans hmaster)
    exact wellfounded row refers

private theorem Distinct.loopless_referenceGraph (distinct : reader.Distinct rows)
    (position : Nat) :
    ¬ (reader.referenceGraph relationships rows).hasArc position position = true := by
  intro arc
  obtain ⟨row, master, hrow, hmaster, -, -, differ, -⟩ := distinct.hasArc_referenceGraph.mp arc
  have same : row = master := Option.some.inj (hrow.symm.trans hmaster)
  exact differ (congrArg reader.key same)

/-- The rows of a batch, each as soon as those that it refers to are out, and the earlier ones
first. -/
def mastersFirst (reader : RowReader R K) (relationships : List Relationship) (rows : List R) :
    List R :=
  ((reader.referenceGraph relationships rows).emittedVertices prefersEarlier).filterMap (rows[·]?)

private theorem order_of_not_distinct (relationships : List Relationship) (table : String)
    (repeated : ¬ reader.Distinct rows) :
    ∃ first second,
      reader.order table relationships rows = .error (.repeatedRowKey table first second) := by
  rw [← repeatedKey?_eq_none_iff] at repeated
  obtain ⟨⟨first, second⟩, found⟩ := Option.ne_none_iff_exists'.mp repeated
  refine ⟨first, second, ?_⟩
  rw [order, found]

private theorem Distinct.order_of_not_wellfounded (table : String) (distinct : reader.Distinct rows)
    (circular : ¬ reader.Wellfounded relationships rows) :
    ∃ cycle, reader.order table relationships rows = .error (.rowsInCycle table cycle) := by
  have formed := wellFormed_referenceGraph reader relationships rows
  rw [← distinct.acyclic_referenceGraph_iff,
    formed.acyclic_iff_length_le_one distinct.loopless_referenceGraph] at circular
  push Not at circular
  -- no row refers to itself directly, so a circle is a component with several places
  obtain ⟨component, member, long⟩ := circular
  have hit : ((reader.referenceGraph relationships rows).components.find?
      fun c => 1 < c.length).isSome := by
    rw [List.find?_isSome]
    exact ⟨component, member, decide_eq_true long⟩
  obtain ⟨cycle, found⟩ := Option.isSome_iff_exists.mp hit
  refine ⟨cycle, ?_⟩
  rw [order, repeatedKey?_eq_none_iff.mpr distinct]
  dsimp only
  rw [found]

private theorem Distinct.order_of_wellfounded (table : String) (distinct : reader.Distinct rows)
    (wellfounded : reader.Wellfounded relationships rows) :
    reader.order table relationships rows =
      .ok ((reader.referenceGraph relationships rows).emittedVertices prefersEarlier) := by
  have formed := wellFormed_referenceGraph reader relationships rows
  have acyclic := distinct.acyclic_referenceGraph_iff.mpr wellfounded
  have single := (formed.acyclic_iff_length_le_one distinct.loopless_referenceGraph).mp acyclic
  have miss : (reader.referenceGraph relationships rows).components.find?
      (fun c => 1 < c.length) = none := by
    rw [List.find?_eq_none]
    intro component member
    have short := single component member
    simpa using short
  rw [order, repeatedKey?_eq_none_iff.mpr distinct]
  dsimp only
  rw [miss, formed.topologicalOrder_of_acyclic prefersEarlier acyclic]
  rfl

theorem sort_eq_map_order {table : String} {delete : Bool} (listed : relationships ≠ [])
    (several : 2 ≤ rows.length) :
    reader.sort table relationships delete rows =
      (reader.order table relationships rows).map fun order =>
        (if delete then order.reverse else order).filterMap (rows[·]?) := by
  have proceed : (relationships.isEmpty || decide (rows.length < 2)) = false := by
    rw [List.isEmpty_eq_false_iff.mpr listed, Bool.false_or, decide_eq_false_iff_not]
    omega
  rw [sort, proceed]
  cases reader.order table relationships rows <;> rfl

private theorem Distinct.sort_of_wellfounded {table : String} {delete : Bool}
    (distinct : reader.Distinct rows) (wellfounded : reader.Wellfounded relationships rows)
    (listed : relationships ≠ []) (several : 2 ≤ rows.length) :
    reader.sort table relationships delete rows =
      .ok (if delete then (reader.mastersFirst relationships rows).reverse
        else reader.mastersFirst relationships rows) := by
  rw [sort_eq_map_order listed several, distinct.order_of_wellfounded table wellfounded]
  cases delete with
  | false => rfl
  | true => exact congrArg Except.ok (List.filterMap_reverse ..)

private theorem Distinct.mastersFirst_perm (distinct : reader.Distinct rows)
    (wellfounded : reader.Wellfounded relationships rows) :
    (reader.mastersFirst relationships rows).Perm rows := by
  have acyclic := distinct.acyclic_referenceGraph_iff.mpr wellfounded
  have formed := wellFormed_referenceGraph reader relationships rows
  have perm := formed.emittedVertices_perm prefersEarlier acyclic
  rw [vertices_referenceGraph] at perm
  exact (perm.filterMap (rows[·]?)).trans (.of_eq (filterMap_range_getElem? rows))

theorem mem_vertices_referenceGraph {place : Nat} {row : R} (found : rows[place]? = some row) :
    place ∈ (reader.referenceGraph relationships rows).vertices := by
  rw [vertices_referenceGraph, List.mem_range]
  exact (List.getElem?_eq_some_iff.mp found).1

theorem Distinct.sublist_mastersFirst_of_places (distinct : reader.Distinct rows)
    (wellfounded : reader.Wellfounded relationships rows) {first second : Nat} {row other : R}
    (hfirst : rows[first]? = some row) (hsecond : rows[second]? = some other)
    (places : second ∈ (reader.referenceGraph relationships rows).emittedVertices prefersEarlier →
      [first, second].Sublist
        ((reader.referenceGraph relationships rows).emittedVertices prefersEarlier)) :
    [row, other].Sublist (reader.mastersFirst relationships rows) := by
  have acyclic := distinct.acyclic_referenceGraph_iff.mpr wellfounded
  have formed := wellFormed_referenceGraph reader relationships rows
  have emitted := (formed.emittedVertices_perm prefersEarlier acyclic).mem_iff.mpr
    (mem_vertices_referenceGraph hsecond)
  have forward := (places emitted).filterMap (rows[·]?)
  simp only [List.filterMap_cons, List.filterMap_nil, hfirst, hsecond] at forward
  exact forward

private theorem Distinct.sublist_mastersFirst (distinct : reader.Distinct rows)
    (wellfounded : reader.Wellfounded relationships rows) {row master : R}
    (refers : reader.Refers relationships rows row master) :
    [master, row].Sublist (reader.mastersFirst relationships rows) := by
  have formed := wellFormed_referenceGraph reader relationships rows
  obtain ⟨first, hfirst⟩ := List.mem_iff_getElem?.mp refers.2.1
  obtain ⟨second, hsecond⟩ := List.mem_iff_getElem?.mp refers.1
  have arc := distinct.hasArc_referenceGraph.mpr ⟨row, master, hsecond, hfirst, refers⟩
  exact distinct.sublist_mastersFirst_of_places wellfounded hfirst hsecond
    (formed.sublist_emittedVertices prefersEarlier arc)

private theorem Distinct.mastersFirst_of_sorted (distinct : reader.Distinct rows)
    (sorted : ∀ row master, reader.Refers relationships rows row master →
      [master, row].Sublist rows) :
    reader.mastersFirst relationships rows = rows := by
  have formed := wellFormed_referenceGraph reader relationships rows
  have forward : ∀ first second,
      (reader.referenceGraph relationships rows).hasArc first second = true →
        (reader.referenceGraph relationships rows).position first <
          (reader.referenceGraph relationships rows).position second := by
    intro first second arc
    obtain ⟨row, master, hrow, hmaster, refers⟩ := distinct.hasArc_referenceGraph.mp arc
    rw [position_referenceGraph hmaster, position_referenceGraph hrow]
    exact lt_of_pair_sublist (List.Nodup.of_map reader.key distinct) (sorted row master refers)
      hmaster hrow
  rw [mastersFirst, formed.emittedVertices_of_forward forward, vertices_referenceGraph,
    filterMap_range_getElem?]

omit [DecidableEq K] in
private theorem refers_congr (reader : RowReader R K) (relationships : List Relationship)
    {rows rows' : List R} (perm : rows.Perm rows') :
    reader.Refers relationships rows = reader.Refers relationships rows' := by
  funext row master
  unfold Refers
  rw [perm.mem_iff, perm.mem_iff]

section Outcome

variable {table : String} {delete : Bool} {sorted : List R} (listed : relationships ≠ [])
  (several : 2 ≤ rows.length)

include listed several

private theorem kind_of_sort_eq_error {e : MappingError}
    (failed : reader.sort table relationships delete rows = .error e) :
    (¬ reader.Distinct rows ∧ e.kind = .precondition) ∨
      (reader.Distinct rows ∧ ¬ reader.Wellfounded relationships rows ∧ e.kind = .rowCycle) := by
  by_cases distinct : reader.Distinct rows
  · right
    by_cases wellfounded : reader.Wellfounded relationships rows
    · rw [distinct.sort_of_wellfounded wellfounded listed several] at failed
      cases failed
    · obtain ⟨cycle, circular⟩ := distinct.order_of_not_wellfounded table wellfounded
      rw [sort_eq_map_order listed several, circular] at failed
      cases failed
      exact ⟨distinct, wellfounded, rfl⟩
  · left
    obtain ⟨first, second, repeated⟩ := order_of_not_distinct relationships table distinct
    rw [sort_eq_map_order listed several, repeated] at failed
    cases failed
    exact ⟨distinct, rfl⟩

/-- Batches can be sorted exactly when keys tell their rows apart and no row refers to itself
through others. -/
theorem sort_eq_ok_iff : reader.sort table relationships delete rows = .ok sorted ↔
    reader.Distinct rows ∧ reader.Wellfounded relationships rows ∧
      sorted = if delete then (reader.mastersFirst relationships rows).reverse
        else reader.mastersFirst relationships rows := by
  constructor
  · intro done
    by_cases distinct : reader.Distinct rows
    · by_cases wellfounded : reader.Wellfounded relationships rows
      · rw [distinct.sort_of_wellfounded wellfounded listed several] at done
        exact ⟨distinct, wellfounded, (Except.ok.inj done).symm⟩
      · obtain ⟨cycle, circular⟩ := distinct.order_of_not_wellfounded table wellfounded
        rw [sort_eq_map_order listed several, circular] at done
        cases done
    · obtain ⟨first, second, repeated⟩ := order_of_not_distinct relationships table distinct
      rw [sort_eq_map_order listed several, repeated] at done
      cases done
  · rintro ⟨distinct, wellfounded, rfl⟩
    exact distinct.sort_of_wellfounded wellfounded listed several

private theorem perm_of_sort_eq_ok
    (done : reader.sort table relationships delete rows = .ok sorted) : sorted.Perm rows := by
  obtain ⟨distinct, wellfounded, rfl⟩ := (sort_eq_ok_iff listed several).mp done
  have perm := distinct.mastersFirst_perm wellfounded
  cases delete with
  | false => exact perm
  | true => exact (List.reverse_perm _).trans perm

private theorem sublist_of_sort_eq_ok
    (done : reader.sort table relationships delete rows = .ok sorted) {row master : R}
    (refers : reader.Refers relationships rows row master) :
    (if delete then [row, master] else [master, row]).Sublist sorted := by
  obtain ⟨distinct, wellfounded, rfl⟩ := (sort_eq_ok_iff listed several).mp done
  have behind := distinct.sublist_mastersFirst wellfounded refers
  cases delete with
  | false => exact behind
  | true => exact behind.reverse

private theorem sort_of_sort_eq_ok
    (done : reader.sort table relationships false rows = .ok sorted) :
    reader.sort table relationships false sorted = .ok sorted := by
  obtain ⟨distinct, wellfounded, rfl⟩ := (sort_eq_ok_iff listed several).mp done
  have perm := distinct.mastersFirst_perm wellfounded
  have same := reader.refers_congr relationships perm
  have distinct' : reader.Distinct (reader.mastersFirst relationships rows) :=
    (perm.map reader.key).nodup_iff.mpr distinct
  have wellfounded' :
      reader.Wellfounded relationships (reader.mastersFirst relationships rows) := by
    rw [Wellfounded, same]
    exact wellfounded
  have inOrder := distinct'.mastersFirst_of_sorted fun row master refers => by
    rw [same] at refers
    exact distinct.sublist_mastersFirst wellfounded refers
  exact (sort_eq_ok_iff listed (perm.length_eq ▸ several)).mpr
    ⟨distinct', wellfounded', inOrder.symm⟩

end Outcome

end RowReader

namespace Sorter

variable {R K : Type} [DecidableEq K] {s : Sorter} {c : Catalog} {table : String}

theorem GoesBy.sortRows_eq_sort {policy : CommitPolicy} (h : s.GoesBy c policy)
    (indexed : ((CommitIndex.build c policy).rank? table).isSome = true) (reader : RowReader R K)
    (delete : Bool) (rows : List R) :
    (s.sortRows reader table delete rows).1 =
      .of rows (reader.sort table ((CommitIndex.build c policy).reflexiveOn table)
        delete rows) := by
  obtain ⟨rank, found⟩ := Option.isSome_iff_exists.mp indexed
  have known : requireRank (.build c policy) table = .ok rank := by
    rw [requireRank, found]
  rw [h.sortRows_eq, known]
  rfl

open RowReader in
/-- Rows that refer to each other come out in order exactly when their keys differ and no row refers
to itself through others; otherwise they stay as they are, and the kind of the fault tells which of
the two is broken, the keys first. -/
theorem sortRows_ok_iff_wellfounded {policy : CommitPolicy} {calls : List SorterCall}
    (bound : ((start policy).callAll calls).catalog = some c)
    (indexed : ((CommitIndex.build c policy).rank? table).isSome = true)
    (reflexive : (CommitIndex.build c policy).isReflexive table = true) (reader : RowReader R K)
    (rows : List R) (several : 2 ≤ rows.length) :
    let s := (start policy).callAll calls
    let relationships := (CommitIndex.build c policy).reflexiveOn table
    let sorting := fun delete => s.sortRows reader table delete rows
    (∀ delete, (sorting delete).1.fault = none ↔
      reader.Distinct rows ∧ reader.Wellfounded relationships rows) ∧
    (∀ delete, (sorting delete).1.fault = none → (sorting delete).1.items.Perm rows) ∧
    (∀ row master, reader.Refers relationships rows row master →
      ((sorting false).1.fault = none → [master, row].Sublist (sorting false).1.items) ∧
      ((sorting true).1.fault = none → [row, master].Sublist (sorting true).1.items)) ∧
    (∀ delete, ¬ reader.Distinct rows →
      ∃ e, (sorting delete).1.fault = some e ∧ e.kind = .precondition) ∧
    (∀ delete, reader.Distinct rows → ¬ reader.Wellfounded relationships rows →
      ∃ e, (sorting delete).1.fault = some e ∧ e.kind = .rowCycle) ∧
    (∀ delete, (sorting delete).1.fault ≠ none → (sorting delete).1.items = rows) ∧
    ((sorting false).1.fault = none →
      ((sorting false).2.sortRows reader table false (sorting false).1.items).1 =
        { items := (sorting false).1.items }) := by
  intro s relationships sorting
  have goes : s.GoesBy c policy := goesBy_callAll bound
  have listed : relationships ≠ [] := by simpa [CommitIndex.isReflexive] using reflexive
  have answers : ∀ delete, (sorting delete).1 =
      .of rows (reader.sort table relationships delete rows) := fun delete =>
    goes.sortRows_eq_sort indexed reader delete rows
  have accepted : ∀ delete, (sorting delete).1.fault = none ↔
      reader.Distinct rows ∧ reader.Wellfounded relationships rows := by
    intro delete
    rw [answers, SortAttempt.faultless_iff]
    constructor
    · rintro ⟨sorted, done⟩
      obtain ⟨distinct, wellfounded, -⟩ := (sort_eq_ok_iff listed several).mp done
      exact ⟨distinct, wellfounded⟩
    · rintro ⟨distinct, wellfounded⟩
      exact ⟨_, distinct.sort_of_wellfounded wellfounded listed several⟩
  have done : ∀ delete, (sorting delete).1.fault = none →
      reader.sort table relationships delete rows = .ok (sorting delete).1.items := by
    intro delete faultless
    rw [answers] at faultless ⊢
    exact SortAttempt.eq_ok_of_faultless faultless
  have failed : ∀ delete, ¬ (reader.Distinct rows ∧ reader.Wellfounded relationships rows) →
      ∃ e, (sorting delete).1.fault = some e ∧
        reader.sort table relationships delete rows = .error e := by
    intro delete broken
    obtain ⟨e, fault⟩ := Option.ne_none_iff_exists'.mp (mt (accepted delete).mp broken)
    refine ⟨e, fault, ?_⟩
    rw [answers] at fault
    exact SortAttempt.fault_eq_some_iff.mp fault
  refine ⟨accepted, fun delete faultless => ?_, fun row master refers => ⟨?_, ?_⟩,
    fun delete repeated => ?_, fun delete distinct circular => ?_, fun delete faulty => ?_,
    fun faultless => ?_⟩
  · exact perm_of_sort_eq_ok listed several (done delete faultless)
  · exact fun faultless => sublist_of_sort_eq_ok listed several (done false faultless) refers
  · exact fun faultless => sublist_of_sort_eq_ok listed several (done true faultless) refers
  · obtain ⟨e, fault, error⟩ := failed delete fun both => repeated both.1
    rcases kind_of_sort_eq_error listed several error with ⟨-, kind⟩ | ⟨distinct, -⟩
    · exact ⟨e, fault, kind⟩
    · exact absurd distinct repeated
  · obtain ⟨e, fault, error⟩ := failed delete fun both => circular both.2
    rcases kind_of_sort_eq_error listed several error with ⟨repeated, -⟩ | ⟨-, -, kind⟩
    · exact absurd distinct repeated
    · exact ⟨e, fault, kind⟩
  · rw [answers] at faulty ⊢
    exact SortAttempt.items_of_faulty faulty
  · have next : (sorting false).2.GoesBy c policy :=
      goes.call (q := .sortRows reader table false rows) rfl
    rw [next.sortRows_eq_sort indexed]
    exact congrArg (SortAttempt.of _) (sort_of_sort_eq_ok listed several (done false faultless))

end Sorter

namespace Workshop

def numbered : RowReader (Nat × Option Nat) Nat where
  key := Prod.fst
  reference _ row := row.2

end Workshop

namespace Sorter

open Workshop

theorem sortRows_ok_iff_wellfounded_masters :
    let s := (start {}).callAll [.bind schema]
    let rows := [(3, some 2), (2, some 1), (1, none)]
    s.catalog = some schema ∧ ((CommitIndex.build schema {}).rank? "ARTIST").isSome = true ∧
      (CommitIndex.build schema {}).isReflexive "ARTIST" = true ∧ 2 ≤ rows.length ∧
      (s.sortRows numbered "ARTIST" false rows).1 =
        { items := [(1, none), (2, some 1), (3, some 2)] } ∧
      numbered.Distinct rows ∧
      numbered.Wellfounded ((CommitIndex.build schema {}).reflexiveOn "ARTIST") rows := by
  intro s rows
  have bound : s.catalog = some schema := rfl
  have indexed : ((CommitIndex.build schema {}).rank? "ARTIST").isSome = true := by
    decide +kernel
  have reflexive : (CommitIndex.build schema {}).isReflexive "ARTIST" = true := by
    decide +kernel
  have several : 2 ≤ rows.length := by decide
  have sorted : (s.sortRows numbered "ARTIST" false rows).1 =
      { items := [(1, none), (2, some 1), (3, some 2)] } := by decide +kernel
  obtain ⟨accepted, -⟩ :=
    sortRows_ok_iff_wellfounded bound indexed reflexive numbered rows several
  have ordered := (accepted false).mp (congrArg SortAttempt.fault sorted)
  exact ⟨bound, indexed, reflexive, several, sorted, ordered⟩

end Sorter

end ObjectRelational
