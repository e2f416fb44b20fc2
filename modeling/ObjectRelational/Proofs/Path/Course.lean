import ObjectRelational.Proofs.Data.List
import ObjectRelational.Proofs.Path.Grammar
import ObjectRelational.Proofs.Path.Requests
import ObjectRelational.Proofs.Path.Walk

set_option autoImplicit false
set_option relaxedAutoImplicit false

/-!
Courses of paths through tables: what the components of a path name, said without a walk. A path
that can be read leads somewhere exactly if it has a course whose end may be named as it is, and
then the course and the text of the path determine the destination and the joins.
-/

namespace ObjectRelational

open Navigator (endsOuter memoKey)

/-- What the last component of a path names. -/
inductive Ending
  | column (column : Column)
  | relationship (relationship : Relationship)
  deriving Repr, DecidableEq

namespace Path

def extend (base : String) (segments : List Segment) : String :=
  if segments.isEmpty then base else append base (Text.undotted (segments.map Segment.text))

private theorem extend_of_ne_nil (base : String) {segments : List Segment} (some : segments ≠ []) :
    extend base segments = append base (Text.undotted (segments.map Segment.text)) := by
  rw [extend, if_neg (by simpa using some)]

private theorem extend_cons (base : String) {s : Segment} (formed : s.WellFormed)
    (segments : List Segment) :
    extend base (s :: segments) = extend (append base s.text) segments := by
  rw [extend_of_ne_nil base (List.cons_ne_nil _ _), List.map_cons]
  by_cases last : segments = []
  · subst last
    rw [List.map_nil, Text.undotted_singleton]
    rfl
  · rw [extend_of_ne_nil _ last, Text.undotted_cons _ (by simpa using last),
      append_of_ne (append_ne formed.text_ne)]
    by_cases root : base = ""
    · rw [root, append_empty, append_empty]
    · rw [append_of_ne root, append_of_ne root]
      simp only [String.append_assoc]

private theorem extend_concat (base : String) {segments : List Segment} {last : Segment}
    (formed : ∀ s ∈ segments, s.WellFormed) :
    extend base (segments ++ [last]) = append (extend base segments) last.text := by
  induction segments generalizing base with
  | nil =>
    rw [List.nil_append, extend_of_ne_nil base (List.cons_ne_nil _ _), List.map_singleton,
      Text.undotted_singleton]
    rfl
  | cons s segments ih =>
    obtain ⟨first, others⟩ := List.forall_mem_cons.mp formed
    rw [List.cons_append, extend_cons base first, ih _ others, extend_cons base first]

private theorem extend_of_segments {path : String} {segments : List Segment}
    (read : Path.segments path = .ok segments) (base : String) :
    extend base segments = append base path := by
  rw [extend_of_ne_nil base (ne_nil_of_segments read), (segments_eq_ok_iff.mp read).2,
    Text.undotted_dotted]

end Path

/-- What the components of a path name: relationships, and what is named on the table that they
lead to. -/
structure Course where
  /-- The components in front of the last one, with the relationships that they name. -/
  crossed : List (Segment × Relationship)
  table : Table
  last : Segment
  ending : Ending
  deriving Repr, DecidableEq

/-- The joins of relationships that are crossed. Each is at the path up to its component, and keeps
rows without a partner just if that ends on the mark. -/
def crossings (base : String) (crossed : List (Segment × Relationship)) : List TableJoin :=
  (withEarlier [] crossed).map fun (front, s, r) =>
    ⟨Path.extend base (front.map (·.1) ++ [s]), r, .ofOuter (endsOuter s.text)⟩

namespace Course

variable (course : Course) (base path : String) (forced : Bool)

def segments : List Segment := course.crossed.map (·.1) ++ [course.last]

/-- Whether a column is named with marks, which only a relationship can have. -/
def marksColumn : Bool :=
  match course.ending with
  | .column _ => course.last.hasMarkers
  | .relationship _ => false

/-- What the path ends on. The key of the target stands at the whole path, and what is not joined
stands in front of the last component. -/
def terminal : Terminal :=
  match course.ending with
  | .column column => .attribute column
  | .relationship r =>
    if forced || r.isToMany || !r.isToKey then
      .relationship r true (Path.append base path) r.target.keyColumns
    else .relationship r false (Path.extend base (course.crossed.map (·.1))) r.sourceColumns

/-- The joins of the path: at each component but the last, and at the whole path if it ends on a
relationship that has to be joined. -/
def joins : List TableJoin :=
  crossings base course.crossed ++
    match course.ending with
    | .column _ => []
    | .relationship r =>
      if forced || r.isToMany || !r.isToKey then
        [⟨Path.append base path, r, .ofOuter (endsOuter path)⟩]
      else []

end Course

namespace Route

def crossing (route : Route) (crossed : List (Segment × Relationship)) : Route :=
  crossed.foldl (fun route p => route.cross p.2 p.1) route

def endAt (route : Route) (path : String) (last : Segment) (forced : Bool) :
    Ending → Except MappingError Resolution
  | .column column =>
    if last.hasMarkers then .error (.markersOnAttribute last.name path)
    else .ok (route.endOnColumn column last.name)
  | .relationship r => .ok (route.endOn r last forced)

private theorem crossing_cons (route : Route) (p : Segment × Relationship)
    (crossed : List (Segment × Relationship)) :
    route.crossing (p :: crossed) = (route.cross p.2 p.1).crossing crossed := rfl

end Route

private theorem crossings_cons (base : String) {s : Segment} (formed : s.WellFormed)
    (r : Relationship) (crossed : List (Segment × Relationship)) :
    crossings base ((s, r) :: crossed) =
      ⟨Path.append base s.text, r, .ofOuter s.outer⟩ ::
        crossings (Path.append base s.text) crossed := by
  have first : Path.extend base [s] = Path.append base s.text := Path.extend_cons base formed []
  rw [crossings, withEarlier, List.map_cons, List.nil_append, withEarlier_cons, List.map_map,
    crossings]
  congr 1
  · dsimp only
    rw [List.map_nil, List.nil_append, first, formed.endsOuter_text]
  · refine List.map_congr_left ?_
    rintro ⟨front, t, q⟩ -
    dsimp only [Function.comp_apply]
    rw [List.map_cons, List.cons_append, Path.extend_cons base formed]

private theorem Route.path_crossing (route : Route) {crossed : List (Segment × Relationship)}
    (formed : ∀ p ∈ crossed, p.1.WellFormed) :
    (route.crossing crossed).path = Path.extend route.path (crossed.map (·.1)) ∧
      (route.crossing crossed).joins = route.joins ++ crossings route.path crossed := by
  induction crossed generalizing route with
  | nil => exact ⟨rfl, (List.append_nil _).symm⟩
  | cons p crossed ih =>
    obtain ⟨first, others⟩ := List.forall_mem_cons.mp formed
    obtain ⟨path, joins⟩ := ih (route.cross p.2 p.1) others
    rw [crossing_cons, path, joins]
    constructor
    · rw [List.map_cons, Path.extend_cons _ first]
      rfl
    · rw [crossings_cons _ first, Route.cross, List.append_assoc]
      rfl

namespace Catalog

/-- The segments name relationships one behind the other, from one table to another, and no
columns of the tables that they start from. -/
inductive Connects (c : Catalog) : Table → List (Segment × Relationship) → Table → Prop
  | nil (table : Table) : Connects c table [] table
  | cons {table last : Table} {s : Segment} {r : Relationship}
      {crossed : List (Segment × Relationship)} :
      table.hasColumn s.name = false → c.relationship? table.name s.name = some r →
      Connects c r.target crossed last → Connects c table ((s, r) :: crossed) last

/-- The name stands for a column of the table, or for a relationship if there is none. -/
def Names (c : Catalog) (table : Table) (name : String) : Ending → Prop
  | .column column => table.column? name = some column
  | .relationship r => table.column? name = none ∧ c.relationship? table.name name = some r

/-- The course is that of the path from the table. -/
structure Traces (c : Catalog) (table : Table) (path : String) (course : Course) : Prop where
  wellFormed : ∀ s ∈ course.segments, s.WellFormed
  texts : course.segments.map Segment.text = Text.dotted path
  connects : c.Connects table course.crossed course.table
  names : c.Names course.table course.last.name course.ending

variable {c : Catalog} {path base : String} {forced : Bool} {route : Route}

private theorem followTables_cons {s : Segment} {rest : List Segment} (more : rest ≠ []) :
    c.followTables path forced route (s :: rest) =
      if route.table.hasColumn s.name then .error (.attributeNotLast s.name path)
      else c.relationshipOn route.table s.name path >>= fun r =>
        c.followTables path forced (route.cross r s) rest := by
  obtain ⟨next, rest, rfl⟩ := List.exists_cons_of_ne_nil more
  rfl

private theorem Connects.followTables {table last : Table} {crossed : List (Segment × Relationship)}
    (h : c.Connects table crossed last) (path : String) (forced : Bool) {route : Route}
    (start : route.table = table) {rest : List Segment} (more : rest ≠ []) :
    (route.crossing crossed).table = last ∧
      c.followTables path forced route (crossed.map (·.1) ++ rest) =
        c.followTables path forced (route.crossing crossed) rest := by
  induction h generalizing route with
  | nil => exact ⟨start, rfl⟩
  | @cons table last s r crossed no_column found _ ih =>
    subst start
    obtain ⟨reached, rest_eq⟩ := @ih (route.cross r s) rfl
    refine ⟨reached, ?_⟩
    rw [List.map_cons, List.cons_append, followTables_cons (by simp [more]), no_column,
      relationshipOn, found]
    exact rest_eq

private theorem followTables_last {last : Segment} {ending : Ending}
    (names : c.Names route.table last.name ending) :
    c.followTables path forced route [last] = route.endAt path last forced ending := by
  cases ending with
  | column column =>
    have found : route.table.column? last.name = some column := names
    simp only [followTables, found, Route.endAt]
  | relationship r =>
    obtain ⟨no_column, found⟩ := names
    simp only [followTables, no_column, relationshipOn, found]
    rfl

private theorem exists_course_or_error (c : Catalog) (path : String) (forced : Bool) (route : Route)
    {segments : List Segment} (some : segments ≠ []) :
    (∃ course : Course, course.segments = segments ∧
        c.Connects route.table course.crossed course.table ∧
        c.Names course.table course.last.name course.ending) ∨
      ∃ e, c.followTables path forced route segments = .error e ∧ e.kind = .pathResolution := by
  induction segments generalizing route with
  | nil => exact absurd rfl some
  | cons s rest ih =>
    by_cases last : rest = []
    · subst last
      cases found : route.table.column? s.name with
      | some column =>
        exact .inl ⟨⟨[], route.table, s, .column column⟩, rfl, .nil _, found⟩
      | none =>
        cases named : c.relationship? route.table.name s.name with
        | some r =>
          exact .inl ⟨⟨[], route.table, s, .relationship r⟩, rfl, .nil _, found, named⟩
        | none =>
          right
          refine ⟨.unresolvedComponent s.name path route.table.name, ?_, rfl⟩
          simp only [Catalog.followTables, found, relationshipOn, named]
          rfl
    · rw [followTables_cons last]
      cases column : route.table.hasColumn s.name with
      | true => exact .inr ⟨_, rfl, rfl⟩
      | false =>
        cases named : c.relationship? route.table.name s.name with
        | none =>
          refine .inr ⟨.unresolvedComponent s.name path route.table.name, ?_, rfl⟩
          simp only [relationshipOn, named]
          rfl
        | some r =>
          rcases ih (route.cross r s) last with
            ⟨course, rfl, connects, names⟩ | ⟨e, failed, kind⟩
          · left
            refine ⟨{ course with crossed := (s, r) :: course.crossed }, rfl, ?_, names⟩
            exact .cons column named connects
          · right
            refine ⟨e, ?_, kind⟩
            simp only [relationshipOn, named]
            exact failed

namespace Traces

variable {table : Table} {course : Course} (h : c.Traces table path course)

include h

private theorem segments_eq : Path.segments path = .ok course.segments :=
  Path.segments_eq_ok_iff.mpr ⟨h.wellFormed, h.texts⟩

private theorem append_crossed (base : String) :
    Path.append (Path.extend base (course.crossed.map (·.1))) course.last.text =
      Path.append base path := by
  have crossed := (List.forall_mem_append.mp h.wellFormed).1
  rw [← Path.extend_of_segments h.segments_eq, Course.segments, Path.extend_concat base crossed]

/-- A path that has a course leads where the course says, unless that marks a column. -/
private theorem resolveTablePath (base : String) (forced : Bool) :
    c.resolveTablePath table path base forced =
      if course.marksColumn then .error (.markersOnAttribute course.last.name path)
      else .ok
        { destination := ⟨Path.append base path, course.terminal base path forced⟩
          joins := course.joins base path forced } := by
  obtain ⟨crossed_formed, -⟩ := List.forall_mem_append.mp h.wellFormed
  obtain ⟨at_table, walked⟩ :
      (Route.crossing { table, path := base } course.crossed).table = course.table ∧ _ :=
    h.connects.followTables path forced rfl (List.cons_ne_nil course.last [])
  obtain ⟨at_path, joined⟩ := Route.path_crossing { table, path := base }
    (List.forall_mem_map.mp crossed_formed)
  have names := h.names
  rw [← at_table] at names
  have whole : c.resolveTablePath table path base forced =
      c.followTables path forced (Route.crossing { table, path := base } course.crossed)
        [course.last] := by
    rw [Catalog.resolveTablePath, extendRoute, h.segments_eq]
    exact walked
  have final := h.append_crossed base
  have outer := Path.endsOuter_of_segments h.segments_eq List.getLast?_concat
  rw [whole, followTables_last names]
  cases ending : course.ending with
  | column column =>
    simp only [Route.endAt, Course.marksColumn, Course.terminal, Course.joins, ending]
    cases marked : course.last.hasMarkers with
    | true => rfl
    | false =>
      rw [Segment.text_of_hasMarkers_eq_false marked] at final
      simp only [Bool.false_eq_true, if_false, Route.endOnColumn, at_path, joined, final,
        List.append_nil, List.nil_append]
  | relationship r =>
    have needed : Route.needsJoin r forced = (forced || r.isToMany || !r.isToKey) := rfl
    simp only [Route.endAt, Course.marksColumn, Course.terminal, Course.joins, ending, Route.endOn,
      needed, Bool.false_eq_true, if_false]
    cases forced || r.isToMany || !r.isToKey with
    | true =>
      simp only [if_true, Route.cross, at_path, joined, final, outer, List.nil_append]
    | false =>
      simp only [Bool.false_eq_true, if_false, at_path, joined, final, List.append_nil,
        List.nil_append]

end Traces

private theorem exists_traces_or_error (c : Catalog) (table : Table) (path base : String)
    (forced : Bool) : (∃ course, c.Traces table path course) ∨
      ∃ e, c.resolveTablePath table path base forced = .error e ∧
        ((¬ Path.IsReadable path ∧ e.kind = .invalidPath) ∨
          (Path.IsReadable path ∧ e.kind = .pathResolution)) := by
  rw [resolveTablePath, extendRoute]
  cases read : Path.segments path with
  | error e =>
    right
    refine ⟨e, rfl, .inl ⟨fun readable => ?_, Path.kind_of_segments read⟩⟩
    obtain ⟨segments, spelled⟩ := Path.isReadable_iff.mp readable
    rw [Path.segments_eq_ok_iff_spells.mpr spelled] at read
    cases read
  | ok segments =>
    have readable := Path.isReadable_iff.mpr ⟨segments, Path.segments_eq_ok_iff_spells.mp read⟩
    rcases c.exists_course_or_error path forced { table, path := base }
      (Path.ne_nil_of_segments read) with ⟨course, rfl, connects, names⟩ | ⟨e, failed, kind⟩
    · obtain ⟨formed, texts⟩ := Path.segments_eq_ok_iff.mp read
      exact .inl ⟨course, formed, texts, connects, names⟩
    · exact .inr ⟨e, failed, .inr ⟨readable, kind⟩⟩

variable {table : Table} {resolution : Resolution}

private theorem exists_resolveTablePath_iff (base : String) (forced : Bool) :
    (∃ resolution, c.resolveTablePath table path base forced = .ok resolution) ↔
      ∃ course, c.Traces table path course ∧ course.marksColumn = false := by
  constructor
  · rintro ⟨resolution, found⟩
    rcases c.exists_traces_or_error table path base forced with ⟨course, traces⟩ | ⟨e, failed, -⟩
    · refine ⟨course, traces, ?_⟩
      rw [traces.resolveTablePath] at found
      by_contra marked
      rw [if_pos (by simpa using marked)] at found
      cases found
    · rw [failed] at found
      cases found
  · rintro ⟨course, traces, unmarked⟩
    exact ⟨_, (traces.resolveTablePath base forced).trans (if_neg (by simp [unmarked]))⟩

private theorem Traces.eq_of_resolveTablePath {course : Course} (h : c.Traces table path course)
    (found : c.resolveTablePath table path base forced = .ok resolution) :
    resolution =
      { destination := ⟨Path.append base path, course.terminal base path forced⟩
        joins := course.joins base path forced } := by
  rw [h.resolveTablePath] at found
  split at found
  · cases found
  · exact (Except.ok.inj found).symm

private theorem kind_of_resolveTablePath {e : MappingError}
    (failed : c.resolveTablePath table path base forced = .error e) :
    (e.kind = .invalidPath ∨ e.kind = .pathResolution) ∧
      (e.kind = .invalidPath ↔ ¬ Path.IsReadable path ∨
        ∃ course, c.Traces table path course ∧ course.marksColumn = true) := by
  by_cases traced : ∃ course, c.Traces table path course
  · obtain ⟨course, traces⟩ := traced
    rw [traces.resolveTablePath] at failed
    split at failed
    · rename_i marked
      obtain rfl := Except.error.inj failed
      exact ⟨.inl rfl, iff_of_true rfl (.inr ⟨course, traces, marked⟩)⟩
    · cases failed
  · rcases c.exists_traces_or_error table path base forced with some | ⟨e', failed', kinds⟩
    · exact absurd some traced
    · obtain rfl := Except.error.inj (failed'.symm.trans failed)
      have unmarked : ¬ ∃ course, c.Traces table path course ∧ course.marksColumn = true :=
        fun ⟨course, traces, _⟩ => traced ⟨course, traces⟩
      rcases kinds with ⟨unreadable, kind⟩ | ⟨readable, kind⟩
      · exact ⟨.inl kind, iff_of_true kind (.inl unreadable)⟩
      · refine ⟨.inr kind, iff_of_false ?_ (not_or.mpr ⟨not_not.mpr readable, unmarked⟩)⟩
        rw [kind]
        nofun

end Catalog

namespace Navigator

/-- A path through tables that was not looked up before leads somewhere exactly if it has a course
that does not mark a column. Then the course determines what the path ends on and the joins that are
registered, whose paths are read off its text and whose tables are then in the tree. Otherwise the
syntax is at fault, or marks on a column, or else the catalog holds nothing that the path could
follow. -/
theorem tablePath_follows_course (n : Navigator) (table : Table) (path : String)
    (parent : Option String) (forced : Bool)
    (absent : n.tablePaths.lookup? (memoKey parent table.name path) = none) :
    let after := n.tablePath table path parent forced
    let base := parent.getD ""
    ((∃ d, after.1 = .ok d) ↔
        ∃ course, n.catalog.Traces table path course ∧ course.marksColumn = false) ∧
      (∀ d, after.1 = .ok d → ∀ course, n.catalog.Traces table path course →
        d = ⟨Path.append base path, course.terminal base path forced⟩ ∧
          n.catalog.resolveTablePath table path base forced =
            .ok ⟨d, course.joins base path forced⟩ ∧
          after.2.tree = n.tree.addJoins (course.joins base path forced) ∧
          n.tree.GrownBy (course.joins base path forced) after.2.tree) ∧
      ∀ e, after.1 = .error e →
        (e.kind = .invalidPath ∨ e.kind = .pathResolution) ∧
          (e.kind = .invalidPath ↔ ¬ Path.IsReadable path ∨
            ∃ course, n.catalog.Traces table path course ∧ course.marksColumn = true) := by
  intro after base
  obtain ⟨answer, tree⟩ : after.1 = (n.catalog.resolveTablePath table path base forced).map
      (·.destination) ∧
      after.2.tree = (n.register (n.catalog.resolveTablePath table path base forced)).tree := by
    rcases n.tablePath_cases table path parent forced with ⟨kept, found, -⟩ | ⟨-, answer⟩
    · rw [absent] at found
      cases found
    · exact ⟨congrArg Prod.fst answer, congrArg (·.2.tree) answer⟩
  rw [answer, tree]
  refine ⟨?_, ?_, ?_⟩
  · rw [← Catalog.exists_resolveTablePath_iff base forced]
    simp only [map_eq_ok_iff]
    exact ⟨fun ⟨_, resolution, resolves, _⟩ => ⟨resolution, resolves⟩,
      fun ⟨resolution, resolves⟩ => ⟨_, resolution, resolves, rfl⟩⟩
  · intro d found course traces
    obtain ⟨resolution, resolves, rfl⟩ := map_eq_ok_iff.mp found
    obtain rfl := traces.eq_of_resolveTablePath resolves
    rw [resolves]
    exact ⟨rfl, rfl, rfl, n.tree.grownBy_addJoins _⟩
  · intro e failed
    exact Catalog.kind_of_resolveTablePath (map_eq_error_iff.mp failed)

end Navigator

namespace Gallery

/-- From a painting to its artist, under an alias and joined outer, and on to all paintings of the
artist. -/
def paintingsOfArtist (toArtist paintings : Relationship) : Course where
  crossed := [(⟨"toArtist", some "a", true⟩, toArtist)]
  table := artistTable
  last := { name := "paintingArray" }
  ending := .relationship paintings

private theorem places_paintingsOfArtist (toArtist : Relationship) {paintings : Relationship}
    (many : paintings.isToMany = true) :
    ((paintingsOfArtist toArtist paintings).joins "owner" "toArtist#a+.paintingArray" false).map
        (fun j => (j.path, j.joinType)) =
      [("owner.toArtist#a+", .leftOuter), ("owner.toArtist#a+.paintingArray", .inner)] := by
  have places : [(Path.extend "owner" [⟨"toArtist", some "a", true⟩],
        JoinType.ofOuter (endsOuter (Segment.text ⟨"toArtist", some "a", true⟩))),
      (Path.append "owner" "toArtist#a+.paintingArray",
        JoinType.ofOuter (endsOuter "toArtist#a+.paintingArray"))] =
        [("owner.toArtist#a+", .leftOuter), ("owner.toArtist#a+.paintingArray", .inner)] := by
    decide +kernel
  simp only [Course.joins, paintingsOfArtist, many]
  exact places

end Gallery

namespace Navigator

open Gallery

theorem tablePath_follows_course_paintings :
    let path := "toArtist#a+.paintingArray"
    let n := start schema
    let after := n.tablePath paintingTable path (some "owner") false
    n.tablePaths.lookup? (memoKey (some "owner") "PAINTING" path) = none ∧
    ∃ course d, schema.Traces paintingTable path course ∧ after.1 = .ok d ∧
      d.finalPath = "owner.toArtist#a+.paintingArray" ∧
      after.2.tree = n.tree.addJoins (course.joins "owner" path false) ∧
      (course.joins "owner" path false).map (fun j => (j.path, j.joinType)) =
        [("owner.toArtist#a+", .leftOuter), ("owner.toArtist#a+.paintingArray", .inner)] ∧
      ∀ p ∈ ["owner.toArtist#a+", "owner.toArtist#a+.paintingArray"],
        ∃ node ∈ after.2.tree.nodes, node.path = p := by
  intro path n after
  have absent : n.tablePaths.lookup? (memoKey (some "owner") "PAINTING" path) = none := rfl
  obtain ⟨leads, determined, -⟩ :=
    tablePath_follows_course n paintingTable path (some "owner") false absent
  have sides : ∃ r q, schema.relationship? "PAINTING" "toArtist" = some r ∧ r.target = artistTable ∧
      schema.relationship? "ARTIST" "paintingArray" = some q ∧ q.isToMany = true :=
    ⟨_, _, rfl, rfl, rfl, rfl⟩
  obtain ⟨r, q, crossed, target, last, many⟩ := sides
  have read : Path.segments "toArtist#a+.paintingArray" =
      .ok [⟨"toArtist", some "a", true⟩, { name := "paintingArray" }] := rfl
  obtain ⟨formed, texts⟩ := Path.segments_eq_ok_iff.mp read
  have traces : schema.Traces paintingTable path (paintingsOfArtist r q) :=
    ⟨formed, texts, .cons rfl crossed (target ▸ .nil _), rfl, last⟩
  obtain ⟨d, found⟩ := leads.mpr ⟨_, traces, rfl⟩
  obtain ⟨rfl, -, tree, grown⟩ := determined d found _ traces
  have final : Path.append "owner" path = "owner.toArtist#a+.paintingArray" := by decide +kernel
  have listed := places_paintingsOfArtist r many
  refine ⟨absent, _, _, traces, found, final, tree, listed, fun p asked => ?_⟩
  change p ∈ List.map Prod.fst [("owner.toArtist#a+", JoinType.leftOuter),
    ("owner.toArtist#a+.paintingArray", .inner)] at asked
  rw [← listed, List.map_map] at asked
  obtain ⟨j, member, rfl⟩ := List.mem_map.mp asked
  exact grown.covered j member

end Navigator

end ObjectRelational
