import Mathlib.Data.List.Nodup
import ObjectRelational.Proofs.Catalog.Matched
import ObjectRelational.Proofs.Path.Accounting
import ObjectRelational.Proofs.Path.Route

set_option autoImplicit false
set_option relaxedAutoImplicit false

/-!
Paths that end on a relationship. Where it is not joined, the columns that refer to its target stand
in for the key of the target, each for one key column; they are the whole key only if the condition
names all of it, and nothing twice. Whether it is joined is decided by the first look-up under a
key: a later one that asks for the join does not get it.
-/

namespace ObjectRelational

namespace Route

variable {r : Relationship} {forced : Bool}

private theorem needsJoin_eq_false_iff :
    needsJoin r forced = false ↔ forced = false ∧ r.isToMany = false ∧ r.isToKey = true := by
  simp [needsJoin, and_assoc]

theorem isJoined_endOn (route : Route) (r : Relationship) (s : Segment) (forced : Bool) :
    (route.endOn r s forced).destination.isJoined = needsJoin r forced := by
  unfold endOn
  cases needsJoin r forced <;> rfl

theorem endOn_of_needsJoin (route : Route) (s : Segment) (joined : needsJoin r forced = true) :
    let ending := route.endOn r s forced
    let d := ending.destination
    d.terminal = .relationship r true d.finalPath r.target.keyColumns ∧
      ∃ j ∈ ending.joins, j.path = d.finalPath := by
  simp only [endOn, joined, if_true, true_and]
  exact ⟨_, List.mem_append_right _ List.mem_cons_self, rfl⟩

/-- The columns that stand in for the target of a relationship that is not joined are matched with
columns of its key, and each key column has as many partners among them as the condition has pairs
that lead to it. So each has a single one exactly if the condition leads to all of the key, and to
nothing twice. -/
theorem endOn_unjoined_key {maps : List DataMap} {supply after : NameSupply} {c : Catalog}
    (compiled : Catalog.compile maps supply = (.ok c, after)) (member : r ∈ c.sides) (route : Route)
    (s : Segment) (unjoined : needsJoin r forced = false) :
    let plain := route.endOn r s forced
    let joined := route.endOn r s true
    plain.joins = route.joins ∧ plain.destination.columns = r.columnPairs.map (·.1) ∧
      (∀ pair ∈ r.columnPairs, pair.2 ∈ joined.destination.columns) ∧
      (∀ k ∈ joined.destination.columns, (r.partners k).length = (r.pairsTo k).length) ∧
      ((∀ k ∈ joined.destination.columns, (r.partners k).length = 1) ↔
        r.targetColumns.Nodup ∧ ∀ k ∈ joined.destination.columns, k ∈ r.targetColumns) := by
  intro plain joined
  have matched := Catalog.matched_of_mem_sides compiled member
  have keys : ∀ column ∈ r.targetColumns, column ∈ r.target.keyColumns := by
    intro column target
    have all := List.all_eq_true.mp (needsJoin_eq_false_iff.mp unjoined).2.2
    exact List.mem_filter.mpr ⟨matched.target_mem column target, all column target⟩
  have plain_eq : plain = ⟨⟨Path.append route.path s.text,
      .relationship r false route.path r.sourceColumns⟩, route.joins⟩ := by
    simp only [plain, endOn, unjoined, Bool.false_eq_true, if_false]
  have joined_columns : joined.destination.columns = r.target.keyColumns := rfl
  rw [joined_columns, plain_eq]
  refine ⟨rfl, matched.map_fst_columnPairs.symm, ?_, ?_, ?_⟩
  · intro pair paired
    apply keys
    rw [← matched.map_snd_columnPairs]
    exact List.mem_map_of_mem paired
  · intro k _
    rw [matched.length_partners, matched.length_pairsTo]
  · simp only [matched.length_partners]
    constructor
    · intro single
      refine ⟨List.nodup_iff_count_le_one.mpr fun k => ?_, fun k key => ?_⟩
      · by_cases target : k ∈ r.targetColumns
        · exact Nat.le_of_eq (single k (keys k target))
        · rw [List.count_eq_zero_of_not_mem target]
          exact Nat.zero_le 1
      · exact List.count_pos_iff.mp (Nat.lt_of_lt_of_eq Nat.zero_lt_one (single k key).symm)
    · rintro ⟨distinct, covered⟩ k key
      exact List.count_eq_one_of_mem distinct (covered k key)

end Route

namespace Theatre

def seat : Table where
  name := "SEAT"
  columns := [.key "HALL_ID", .key "SEAT_NO"]

def ticket : Table where
  name := "TICKET"
  columns := [.key "TICKET_ID", { name := "HALL_ID" }, { name := "SEAT_NO" }]

def map : DataMap where
  name := "theatre"
  tables := [seat, ticket]
  joins :=
    [{ condition := .multi [⟨"HALL_ID", "HALL_ID"⟩, ⟨"SEAT_NO", "SEAT_NO"⟩]
       entities := ⟨"TICKET", "SEAT"⟩
       names := ⟨some "toSeat", some "tickets"⟩
       cardinality := .manyToOne },
     { condition := .single ⟨"HALL_ID", "HALL_ID"⟩
       entities := ⟨"TICKET", "SEAT"⟩
       names := ⟨some "anySeat", some "hallTickets"⟩
       cardinality := .manyToOne }]

def schema : Catalog :=
  match Catalog.compile [map] {} with
  | (.ok c, _) => c
  | (.error _, _) => ⟨[], [], [], []⟩

private theorem compile_map : Catalog.compile [map] {} = (.ok schema, {}) := rfl

end Theatre

namespace Route

open Theatre

theorem endOn_unjoined_key_seat :
    ∃ r ∈ schema.sides, r.name = "toSeat" ∧ needsJoin r false = false ∧
      let plain := endOn { table := ticket, path := "" } r { name := "toSeat" } false
      let joined := endOn { table := ticket, path := "" } r { name := "toSeat" } true
      plain.destination.columns = [{ name := "HALL_ID" }, { name := "SEAT_NO" }] ∧
        joined.destination.columns = [.key "HALL_ID", .key "SEAT_NO"] ∧
        ∀ k ∈ joined.destination.columns, (r.partners k).length = 1 := by
  have found : ∃ r ∈ schema.sides, r.name = "toSeat" ∧ needsJoin r false = false ∧
      r.columnPairs = [({ name := "HALL_ID" }, .key "HALL_ID"),
        ({ name := "SEAT_NO" }, .key "SEAT_NO")] ∧
      r.targetColumns = r.target.keyColumns ∧ r.targetColumns.Nodup ∧
      r.target.keyColumns = [.key "HALL_ID", .key "SEAT_NO"] := by decide +kernel
  obtain ⟨r, member, name, unjoined, pairs, covered, distinct, keys⟩ := found
  obtain ⟨-, plain, -, -, single⟩ := endOn_unjoined_key compile_map member
    { table := ticket, path := "" } { name := "toSeat" } unjoined
  refine ⟨r, member, name, unjoined, ?_, keys, ?_⟩
  · rw [plain, pairs]
    rfl
  · refine single.mpr ⟨distinct, fun k key => ?_⟩
    rw [covered]
    exact key

/-- A hall does not tell which of its seats is meant, but it stands in for the key of a seat. -/
theorem endOn_unjoined_part_of_key :
    ∃ r ∈ schema.sides, r.name = "anySeat" ∧ needsJoin r false = false ∧
      let route : Route := { table := ticket, path := "" }
      let last : Segment := { name := "anySeat" }
      schema.resolveTablePath ticket "anySeat" "" false = .ok (route.endOn r last false) ∧
        Column.key "SEAT_NO" ∈ (route.endOn r last true).destination.columns ∧
        r.partners (.key "SEAT_NO") = [] := by
  decide +kernel

end Route

namespace Catalog

variable {c : Catalog} {path : String} {forced : Bool} {resolution : Resolution}

private theorem ends_of_resolveTablePath {table : Table} {base : String} {r : Relationship}
    (resolves : c.resolveTablePath table path base forced = .ok resolution)
    (last : resolution.destination.relationship? = some r) :
    ∃ (reached : Route) (s : Segment), resolution = reached.endOn r s forced := by
  obtain ⟨_, -, followed⟩ := extendRoute_eq_ok_iff.mp resolves
  obtain ⟨reached, s, -, ended⟩ := ends_of_followTables followed last
  exact ⟨reached, s, ended⟩

end Catalog

namespace Navigator

/-- A path through tables that is looked up behind other requests ends as it was first looked up,
whether or not its relationship is to be joined this time. If it is joined, it ends on the key of
the target, at a path of the tree. -/
theorem tablePath_joined_as_first (c : Catalog) (history : List Request) (l : TableLookup) :
    let n := (start c).askAll history
    let after := n.tablePath l.table l.path l.parent l.forced
    ∃ first : TableLookup,
      (Lookup.first? (lookups history) (.table l)).getD (.table l) = .table first ∧
      ∀ d r, after.1 = .ok d → d.relationship? = some r →
        d.isJoined = (first.forced || r.isToMany || !r.isToKey) ∧
        (d.isJoined = true →
          d.terminal = .relationship r true d.finalPath r.target.keyColumns ∧
            after.2.tree.hasPath d.finalPath = true) := by
  intro n after
  have begun : (start c).Accounted c (lookups []) := accounted_start c
  have answer : after.1 = c.recalled (lookups history) (.table l) :=
    ((begun.askAll history).2.look (.table l)).1
  obtain ⟨first, first_eq⟩ := Lookup.exists_getD_first? (lookups history) l
  refine ⟨first, first_eq, fun d r found last => ?_⟩
  rw [answer, Catalog.recalled, first_eq, Catalog.found, map_eq_ok_iff] at found
  obtain ⟨resolution, resolves, rfl⟩ := found
  obtain ⟨reached, s, rfl⟩ := Catalog.ends_of_resolveTablePath resolves last
  rw [Route.isJoined_endOn]
  refine ⟨rfl, fun joined => ?_⟩
  obtain ⟨terminal, j, member, path⟩ := reached.endOn_of_needsJoin s joined
  refine ⟨terminal, ?_⟩
  rw [← path]
  -- the request itself may be the first of its slot
  have asked : Lookup.first? (lookups (history ++ [.table l.table l.path l.parent l.forced]))
      (.table l) = some (.table first) := by
    rw [lookups_append_singleton, ← first_eq]
    exact Lookup.first?_append_self _ _
  have registered : j ∈ joinsOf (c.follow (.table first)) := by
    rw [resolves]
    exact member
  have there := hasPath_of_first? asked registered
  rw [askAll_append] at there
  exact there

open Gallery

theorem tablePath_joined_as_first_artist :
    let history := [Request.table paintingTable "toArtist" none true, .object painting "NOPE" none,
      .table paintingTable "toArtist" none false]
    let after := ((start schema).askAll history).tablePath paintingTable "toArtist" none true
    ∃ d r, after.1 = .ok d ∧ d.relationship? = some r ∧ d.isJoined = true ∧
      d.terminal = .relationship r true "toArtist" [.key "ARTIST_ID"] ∧
      after.2.tree.hasPath "toArtist" = true := by
  intro history after
  obtain ⟨first, first_eq, ends⟩ :=
    tablePath_joined_as_first schema history ⟨paintingTable, "toArtist", none, true⟩
  have forced : first.forced = true := by
    obtain rfl := Lookup.table.inj first_eq
    rfl
  have found : ∃ d r, after.1 = .ok d ∧ d.relationship? = some r ∧ d.finalPath = "toArtist" ∧
      r.target.keyColumns = [.key "ARTIST_ID"] := ⟨_, _, rfl, rfl, rfl, rfl⟩
  obtain ⟨d, r, answer, last, path, keys⟩ := found
  obtain ⟨joined, reached⟩ := ends d r answer last
  rw [forced, Bool.true_or, Bool.true_or] at joined
  obtain ⟨terminal, there⟩ := reached joined
  rw [path] at there
  rw [path, keys] at terminal
  exact ⟨d, r, answer, last, joined, terminal, there⟩

/-- A look-up that asks for the join is answered without it, as an earlier one was. -/
theorem tablePath_forced_after_plain :
    let n := (start schema).askAll [.table paintingTable "toArtist" none false]
    let after := n.tablePath paintingTable "toArtist" none true
    ∃ d r, after.1 = .ok d ∧ d.relationship? = some r ∧ d.isJoined = false ∧
      d.columns = [{ name := "ARTIST_ID" }] ∧ after.2.tree.hasPath d.finalPath = false :=
  ⟨_, _, rfl, rfl, rfl, rfl, rfl⟩

end Navigator

end ObjectRelational
