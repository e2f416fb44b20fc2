import ObjectRelational.Proofs.Catalog.Linked
import ObjectRelational.Proofs.Path.Requests
import ObjectRelational.Proofs.Path.Route
import ObjectRelational.Proofs.Path.Segment

set_option autoImplicit false
set_option relaxedAutoImplicit false

/-!
Paths through objects as abbreviations of paths through tables. Each relationship of an object is
expanded into those that it stands for, and an attribute into its path. The expanded path leads
through the tables to where the path leads through the objects.
-/

namespace ObjectRelational

/-- What a path through objects stands for: relationships between tables, and the path of the
attribute that it ends on. -/
structure Expansion where
  hops : List Segment
  ending : Option String
  deriving Repr, DecidableEq

namespace Expansion

def onAttribute (e : Expansion) : Bool := e.ending.isSome

def parts (e : Expansion) : List String := e.hops.map Segment.text ++ e.ending.toList

def text (e : Expansion) : String := Text.undotted e.parts

def behind (front : List Segment) (e : Expansion) : Expansion := { e with hops := front ++ e.hops }

private theorem parts_behind (front : List Segment) (e : Expansion) :
    (e.behind front).parts = front.map Segment.text ++ e.parts := by
  rw [parts, behind, List.map_append, List.append_assoc]
  rfl

end Expansion

/-- The relationships that a segment stands for, with its alias and its mark. -/
def ObjectRelationship.hops (r : ObjectRelationship) (s : Segment) : List Segment :=
  r.components.map s.rename

/-- The expansion of a path through objects, if each of its segments names a relationship that is
no attribute, or an attribute at the end. -/
def Catalog.expand (c : Catalog) (object : ObjectEntity) : List Segment → Option Expansion
  | [] => none
  | [last] =>
    match object.attribute? last.name with
    | some a => if last.hasMarkers then none else some ⟨[], some a.path⟩
    | none => (object.relationship? last.name).map fun r => ⟨r.hops last, none⟩
  | segment :: next :: rest =>
    if (object.attribute? segment.name).isSome then none
    else do
      let r ← object.relationship? segment.name
      let target ← c.object? r.target
      let e ← c.expand target (next :: rest)
      return e.behind (r.hops segment)

namespace ObjectRelationship

variable {r : ObjectRelationship}

private theorem hops_ne_nil (r : ObjectRelationship) (s : Segment) : r.hops s ≠ [] := by
  simpa [hops, components] using Text.dotted_ne_nil r.path

private theorem isComponent_hops (plain : ∀ part ∈ r.components, Segment.IsPlain part) {s : Segment}
    (component : s.IsComponent) : ∀ hop ∈ r.hops s, hop.IsComponent := by
  intro hop member
  obtain ⟨part, hpart, rfl⟩ := List.mem_map.mp member
  exact component.rename (plain part hpart) (Text.hasDot_of_mem_dotted hpart)

private theorem components_eq (nonempty : ∀ part ∈ r.components, part ≠ "") :
    r.components = r.frontHops ++ [r.lastHop] := by
  apply components_eq_of_ne
  intro lost
  exact nonempty "" (by simp [lost]) rfl

end ObjectRelationship

namespace Catalog

variable {c : Catalog} {object : ObjectEntity} {segment last : Segment} {rest : List Segment}
  {e : Expansion}

private theorem expand_singleton_eq_some_iff :
    c.expand object [last] = some e ↔
      (∃ a, object.attribute? last.name = some a ∧ last.hasMarkers = false ∧
        ⟨[], some a.path⟩ = e) ∨
      (object.attribute? last.name = none ∧
        ∃ r, object.relationship? last.name = some r ∧ ⟨r.hops last, none⟩ = e) := by
  unfold expand
  cases object.attribute? last.name with
  | some a => cases last.hasMarkers <;> simp
  | none => simp

private theorem expand_cons_eq_some_iff (more : rest ≠ []) :
    c.expand object (segment :: rest) = some e ↔
      object.attribute? segment.name = none ∧
        ∃ r, object.relationship? segment.name = some r ∧
          ∃ target, c.object? r.target = some target ∧
            ∃ behind, c.expand target rest = some behind ∧
              behind.behind (r.hops segment) = e := by
  obtain ⟨next, rest, rfl⟩ := List.exists_cons_of_ne_nil more
  rw [expand]
  cases object.attribute? segment.name with
  | some a => simp
  | none => simp [Option.bind_eq_some_iff]

private theorem parts_ne_nil_of_expand {segments : List Segment}
    (expanded : c.expand object segments = some e) : e.parts ≠ [] := by
  cases segments with
  | nil => cases expanded
  | cons segment rest =>
    by_cases last : rest = []
    · rw [last, expand_singleton_eq_some_iff] at expanded
      rcases expanded with ⟨a, -, -, rfl⟩ | ⟨-, r, -, rfl⟩
      · simp [Expansion.parts]
      · simp [Expansion.parts, r.hops_ne_nil]
    · obtain ⟨-, r, -, target, -, behind, -, rfl⟩ := (expand_cons_eq_some_iff last).mp expanded
      simp [Expansion.parts_behind, r.hops_ne_nil]

theorem requireObject_eq_ok_iff {name : String} {target : ObjectEntity} :
    c.requireObject name = .ok target ↔ c.object? name = some target := by
  unfold requireObject
  cases c.object? name with
  | none => exact ⟨nofun, nofun⟩
  | some found => simp

end Catalog

section Walks

variable {c : Catalog} (linked : c.Linked)
  (apart : ∀ table, ∀ r ∈ c.relationships table, r.source.hasColumn r.name = false)
  (plain : ∀ o ∈ c.objects, ∀ r ∈ o.relationships, ∀ part ∈ r.components, Segment.IsPlain part)
  {object : ObjectEntity} {route reached : Route} {path text : String} {s : Segment}
  {forced : Bool} {resolution : Resolution}

namespace Catalog

include linked

private theorem mem_tables_of_crossAll {hops : List String} (known : route.table ∈ c.tables)
    (found : c.crossAll path s route hops = .ok reached) : reached.table ∈ c.tables := by
  induction hops generalizing route with
  | nil =>
    rw [← crossAll_nil_eq_ok_iff.mp found]
    exact known
  | cons hop hops ih =>
    obtain ⟨r, crossed, found⟩ := crossAll_cons_eq_ok_iff.mp found
    exact ih (linked.target_of_relationship? known crossed) found

include apart

private theorem hasColumn_eq_false {t : Table} (known : t ∈ c.tables) {name : String}
    {r : Relationship} (found : c.relationship? t.name name = some r) :
    t.hasColumn name = false := by
  obtain ⟨member, rfl, rfl, -⟩ := linked.of_relationship? known found
  exact apart _ r member

private theorem followTables_hops (path : String) {hops : List String} {rest : List Segment}
    (more : rest ≠ []) (known : route.table ∈ c.tables) :
    c.followTables text forced route (hops.map s.rename ++ rest) = .ok resolution ↔
      ∃ reached, c.crossAll path s route hops = .ok reached ∧
        c.followTables text forced reached rest = .ok resolution := by
  induction hops generalizing route with
  | nil => simp [crossAll_nil_eq_ok_iff]
  | cons hop hops ih =>
    rw [List.map_cons, List.cons_append, followTables_cons_eq_ok_iff (by simp [more])]
    simp only [crossAll_cons_eq_ok_iff]
    constructor
    · rintro ⟨-, r, crossed, found⟩
      have next := linked.target_of_relationship? known crossed
      obtain ⟨reached, others, found⟩ := (ih next).mp found
      exact ⟨reached, ⟨r, crossed, others⟩, found⟩
    · rintro ⟨reached, ⟨r, crossed, others⟩, found⟩
      have next := linked.target_of_relationship? known crossed
      exact ⟨hasColumn_eq_false linked apart known crossed, r, crossed,
        (ih next).mpr ⟨reached, others, found⟩⟩

private theorem extendRoute_behind {r : ObjectRelationship}
    (parts : ∀ part ∈ r.components, Segment.IsPlain part) (component : s.IsComponent)
    {e : Expansion} (some_part : e.parts ≠ []) (known : route.table ∈ c.tables) :
    c.extendRoute route (e.behind (r.hops s)).text forced = .ok resolution ↔
      ∃ reached, c.crossAll r.path s route r.components = .ok reached ∧
        c.extendRoute reached e.text forced = .ok resolution := by
  have components := ObjectRelationship.isComponent_hops parts component
  have read : ∀ {segments}, Path.segments (e.behind (r.hops s)).text = .ok segments ↔
      ∃ behind, Path.segments e.text = .ok behind ∧ r.hops s ++ behind = segments := by
    intro segments
    rw [Expansion.text, Expansion.parts_behind]
    exact Path.segments_undotted_append components some_part
  rw [extendRoute_eq_ok_iff]
  constructor
  · rintro ⟨segments, whole, found⟩
    obtain ⟨behind, hbehind, rfl⟩ := read.mp whole
    have more : behind ≠ [] := Path.ne_nil_of_segments hbehind
    obtain ⟨reached, crossed, found⟩ := (followTables_hops linked apart r.path more known).mp found
    refine ⟨reached, crossed, extendRoute_eq_ok_iff.mpr ⟨behind, hbehind, ?_⟩⟩
    exact (followTables_eq_ok_congr _ _ _).mp found
  · rintro ⟨reached, crossed, found⟩
    obtain ⟨behind, hbehind, found⟩ := extendRoute_eq_ok_iff.mp found
    have more : behind ≠ [] := Path.ne_nil_of_segments hbehind
    refine ⟨_, read.mpr ⟨behind, hbehind, rfl⟩, ?_⟩
    refine (followTables_hops linked apart r.path more known).mpr ⟨reached, crossed, ?_⟩
    exact (followTables_eq_ok_congr _ _ _).mp found

private theorem endOnObject_eq_ok_iff_extendRoute {r : ObjectRelationship}
    (parts : ∀ part ∈ r.components, Segment.IsPlain part) (component : s.IsComponent)
    (known : route.table ∈ c.tables) :
    c.endOnObject route r s = .ok resolution ↔
      c.extendRoute route (Expansion.text ⟨r.hops s, none⟩) false = .ok resolution ∧
        resolution.destination.relationship?.isSome = true := by
  have components := ObjectRelationship.isComponent_hops parts component
  have whole : Path.segments (Expansion.text ⟨r.hops s, none⟩) = .ok (r.hops s) := by
    rw [Expansion.text, Expansion.parts, Option.toList_none, List.append_nil]
    exact Path.segments_undotted components (r.hops_ne_nil s)
  have split : r.hops s = r.frontHops.map s.rename ++ [s.rename r.lastHop] := by
    have all := ObjectRelationship.components_eq fun part member => (parts part member).1
    rw [ObjectRelationship.hops, all, List.map_append, List.map_singleton]
  rw [endOnObject_eq_ok_iff, extendRoute_eq_ok_iff]
  constructor
  · rintro ⟨reached, front, hop, last, rfl⟩
    have at_last := mem_tables_of_crossAll linked known front
    have no_column : reached.table.column? r.lastHop = none := by
      simpa [Table.hasColumn] using hasColumn_eq_false linked apart at_last last
    refine ⟨⟨r.hops s, whole, ?_⟩, ?_⟩
    · rw [split]
      refine (followTables_hops linked apart r.path (by simp) known).mpr ⟨reached, front, ?_⟩
      exact followTables_singleton_eq_ok_iff.mpr (.inr ⟨no_column, hop, last, rfl⟩)
    · rw [Route.relationship?_endOn]
      rfl
  · rintro ⟨⟨segments, read, found⟩, ends⟩
    obtain rfl := Except.ok.inj (whole.symm.trans read)
    rw [split] at found
    obtain ⟨reached, front, found⟩ :=
      (followTables_hops linked apart r.path (by simp) known).mp found
    rcases followTables_singleton_eq_ok_iff.mp found with ⟨column, -, -, rfl⟩ | ⟨-, hop, last, rfl⟩
    -- without a relationship of its name, the last hop may still be a column
    · cases ends
    · exact ⟨reached, front, hop, last, rfl⟩

include plain

private theorem followObjects_eq_ok_iff_extendRoute {segments : List Segment} {e : Expansion}
    (declared : object ∈ c.objects) (known : route.table ∈ c.tables)
    (components : ∀ s ∈ segments, s.IsComponent) (expanded : c.expand object segments = some e) :
    c.followObjects path object route segments = .ok resolution ↔
      c.extendRoute route e.text e.onAttribute = .ok resolution ∧
        (e.onAttribute = true ∨ resolution.destination.relationship?.isSome = true) := by
  induction segments generalizing object route e with
  | nil => cases expanded
  | cons s rest ih =>
    obtain ⟨first, others⟩ := List.forall_mem_cons.mp components
    by_cases last : rest = []
    · rw [last, expand_singleton_eq_some_iff] at expanded
      rw [last, followObjects_singleton_eq_ok_iff]
      rcases expanded with ⟨a, hit, unmarked, rfl⟩ | ⟨no_attribute, r, hit, rfl⟩
      · have whole : Expansion.text ⟨[], some a.path⟩ = a.path := Text.undotted_singleton a.path
        simp [hit, unmarked, whole, Expansion.onAttribute]
      · have parts := plain object declared r (List.mem_of_find?_eq_some hit)
        have ends : c.endOnObject route r s = .ok resolution ↔ _ :=
          endOnObject_eq_ok_iff_extendRoute linked apart parts first known
        simp [no_attribute, hit, ends, Expansion.onAttribute]
    · obtain ⟨no_attribute, r, hit, target, found, behind, rest_expanded, rfl⟩ :=
        (expand_cons_eq_some_iff last).mp expanded
      have parts := plain object declared r (List.mem_of_find?_eq_some hit)
      have target_declared : target ∈ c.objects := List.mem_of_find?_eq_some found
      have some_part := parts_ne_nil_of_expand rest_expanded
      have same_end : (behind.behind (r.hops s)).onAttribute = behind.onAttribute := rfl
      rw [followObjects_cons_eq_ok_iff last, same_end,
        extendRoute_behind linked apart parts first some_part known]
      constructor
      · rintro ⟨-, r', hit', reached, crossed, target', found', followed⟩
        obtain rfl := Option.some.inj (hit.symm.trans hit')
        obtain rfl := Option.some.inj (found.symm.trans (requireObject_eq_ok_iff.mp found'))
        have at_target := mem_tables_of_crossAll linked known crossed
        obtain ⟨walked, ends⟩ := (ih target_declared at_target others rest_expanded).mp followed
        exact ⟨⟨reached, crossed, walked⟩, ends⟩
      · rintro ⟨⟨reached, crossed, walked⟩, ends⟩
        have at_target := mem_tables_of_crossAll linked known crossed
        have followed := (ih target_declared at_target others rest_expanded).mpr ⟨walked, ends⟩
        exact ⟨no_attribute, r, hit, reached, crossed, target,
          requireObject_eq_ok_iff.mpr found, followed⟩

private theorem resolveObjectPath_eq_ok_iff_resolveTablePath {table : Table} {base : String}
    {segments : List Segment} {e : Expansion} (declared : object ∈ c.objects)
    (known : table ∈ c.tables) (mapped : c.tableFor object = .ok table)
    (read : Path.segments path = .ok segments) (expanded : c.expand object segments = some e) :
    c.resolveObjectPath object path base = .ok resolution ↔
      c.resolveTablePath table e.text base e.onAttribute = .ok resolution ∧
        (e.onAttribute = true ∨ resolution.destination.relationship?.isSome = true) := by
  have components : ∀ s ∈ segments, s.IsComponent :=
    fun s member => Path.isComponent_of_mem read member
  have walk : c.followObjects path object { table, path := base } segments = .ok resolution ↔ _ :=
    followObjects_eq_ok_iff_extendRoute linked apart plain declared known components expanded
  rw [resolveObjectPath_eq_ok_iff]
  constructor
  · rintro ⟨segments', read', table', mapped', followed⟩
    obtain rfl := Except.ok.inj (read.symm.trans read')
    obtain rfl := Except.ok.inj (mapped.symm.trans mapped')
    exact walk.mp followed
  · intro walked
    exact ⟨segments, read, table, mapped, walk.mpr walked⟩

end Catalog

end Walks

namespace Navigator

/-- On a navigator of its own, a path through an object leads where its expansion leads through
the tables, over the same joins. The expanded path is followed with a forced join if it ends on
an attribute, and has to end on a relationship otherwise. -/
theorem objectPath_as_expanded {maps : List DataMap} {supply after : NameSupply} {c : Catalog}
    (compiled : Catalog.compile maps supply = (.ok c, after))
    (apart : ∀ table, ∀ r ∈ c.relationships table, r.source.hasColumn r.name = false)
    (plain : ∀ o ∈ c.objects, ∀ r ∈ o.relationships, ∀ part ∈ r.components,
      Segment.IsPlain part)
    {object : ObjectEntity} (declared : object ∈ c.objects) {path : String}
    {segments : List Segment} (read : Path.segments path = .ok segments) {e : Expansion}
    (expanded : c.expand object segments = some e) (parent : Option String) :
    ∃ table, c.tableFor object = .ok table ∧
      let through := (start c).objectPath object path parent
      let direct := (start c).tablePath table e.text parent e.onAttribute
      (∀ d, through.1 = .ok d ↔
        direct.1 = .ok d ∧ (e.onAttribute = true ∨ d.relationship?.isSome = true)) ∧
      ∀ d, through.1 = .ok d → through.2.tree = direct.2.tree := by
  have linked := Catalog.linked_of_compile compiled
  obtain ⟨table, known, mapped⟩ := linked.backed object declared
  have same : ∀ resolution, c.resolveObjectPath object path (parent.getD "") = .ok resolution ↔ _ :=
    fun resolution => Catalog.resolveObjectPath_eq_ok_iff_resolveTablePath linked apart plain
      declared known mapped read expanded
  refine ⟨table, mapped, ?_, ?_⟩
  · intro d
    rw [objectPath_start_fst, tablePath_start_fst, map_eq_ok_iff, map_eq_ok_iff]
    constructor
    · rintro ⟨resolution, found, rfl⟩
      obtain ⟨found, ends⟩ := (same resolution).mp found
      exact ⟨⟨resolution, found, rfl⟩, ends⟩
    · rintro ⟨⟨resolution, found, rfl⟩, ends⟩
      exact ⟨resolution, (same resolution).mpr ⟨found, ends⟩, rfl⟩
  · intro d answered
    rw [objectPath_start_fst] at answered
    obtain ⟨resolution, through, -⟩ := map_eq_ok_iff.mp answered
    have direct := ((same resolution).mp through).1
    rw [objectPath_start_tree, tablePath_start_tree, through, direct]

open Gallery

theorem objectPath_as_expanded_paintings :
    let e : Expansion := ⟨[⟨"paintingArray", some "p", true⟩], some "toArtist.ARTIST_NAME"⟩
    e.text = "paintingArray#p+.toArtist.ARTIST_NAME" ∧
      ∃ table, schema.tableFor artist = .ok table ∧
        ∀ d, ((start schema).objectPath artist "paintings#p+.artistName" none).1 = .ok d ↔
          ((start schema).tablePath table e.text none e.onAttribute).1 = .ok d ∧
            (e.onAttribute = true ∨ d.relationship?.isSome = true) := by
  intro e
  refine ⟨by decide +kernel, ?_⟩
  have linked := Catalog.linked_of_compile compile_map
  have apart : ∀ table, ∀ r ∈ schema.relationships table, r.source.hasColumn r.name = false :=
    linked.forall_relationships (by decide +kernel)
  have plain : ∀ o ∈ schema.objects, ∀ r ∈ o.relationships, ∀ part ∈ r.components,
      Segment.IsPlain part := by
    decide +kernel
  have read : Path.segments "paintings#p+.artistName" =
      .ok [⟨"paintings", some "p", true⟩, ⟨"artistName", none, false⟩] := rfl
  have expanded : schema.expand artist
      [⟨"paintings", some "p", true⟩, ⟨"artistName", none, false⟩] = some e := by
    decide +kernel
  obtain ⟨table, mapped, agrees, -⟩ :=
    objectPath_as_expanded compile_map apart plain (by decide +kernel) read expanded none
  exact ⟨table, mapped, agrees⟩

end Navigator

end ObjectRelational
