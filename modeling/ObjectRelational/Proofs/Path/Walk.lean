import ObjectRelational.Path.Navigator
import ObjectRelational.Proofs.Path.Route
import ObjectRelational.Proofs.Path.Segment

set_option autoImplicit false
set_option relaxedAutoImplicit false

/-!
Inductions along a walk. What each crossing keeps of a route holds wherever a path leads, whether
it names relationships of tables or objects whose relationships stand for several of these. Where
a path ends, a relationship has the mark for outer joins that the path ends on.
-/

namespace ObjectRelational

section OuterMark

open Navigator (endsOuter)

theorem endsOuter_append (front : String) {back : String} (nonempty : back ≠ "") :
    endsOuter (front ++ back) = endsOuter back := by
  have chars : back.toList ≠ [] := by simpa using nonempty
  rw [endsOuter, endsOuter, String.toList_append, List.getLast?_append_of_ne_nil _ chars]

theorem Segment.WellFormed.endsOuter_text {s : Segment} (h : s.WellFormed) :
    endsOuter s.text = s.outer := by
  rw [endsOuter, s.toList_text]
  cases s.outer with
  | true => simp [Segment.outerChars]
  | false =>
    rw [Segment.outerChars, if_neg Bool.false_ne_true, List.append_nil, beq_eq_false_iff_ne]
    intro last
    exact h.outerMark_not_mem (List.mem_of_getLast? last)

namespace Path

theorem endsOuter_append (base : String) {s : Segment} (component : s.IsComponent) :
    endsOuter (append base s.text) = s.outer := by
  rw [← component.wellFormed.endsOuter_text]
  by_cases root : base = ""
  · rw [root, append_empty]
  · rw [append_of_ne root]
    exact ObjectRelational.endsOuter_append _ component.text_ne

theorem endsOuter_of_segments {path : String} {segments : List Segment} {last : Segment}
    (read : Path.segments path = .ok segments) (behind : segments.getLast? = some last) :
    endsOuter path = last.outer := by
  have component := isComponent_of_mem read (List.mem_of_getLast? behind)
  obtain ⟨front, rfl⟩ := List.getLast?_eq_some_iff.mp behind
  obtain ⟨-, texts⟩ := segments_eq_ok_iff.mp read
  rw [List.map_append] at texts
  obtain ⟨before, rfl⟩ := Text.exists_append_of_dotted texts.symm
  rw [ObjectRelational.endsOuter_append before component.text_ne,
    component.wellFormed.endsOuter_text]

end Path

end OuterMark

/-- What a walk keeps: a property of routes that every crossing preserves, and a property of
resolutions that every end of a route has. A final relationship is joined in any case, or its
component has the mark or not, as is given. -/
structure Walk (c : Catalog) (outer : Bool) (R : Route → Prop) (Q : Resolution → Prop) : Prop where
  cross : ∀ {route : Route} {s : Segment} {r : Relationship}, R route → s.IsComponent →
    c.relationship? route.table.name s.name = some r → R (route.cross r s)
  endOn : ∀ {route : Route} {s : Segment} {r : Relationship} {forced : Bool}, R route →
    s.IsComponent → c.relationship? route.table.name s.name = some r →
    forced = true ∨ s.outer = outer → Q (route.endOn r s forced)
  endOnColumn : ∀ {route : Route} {column : Column} {name : String}, R route →
    Text.hasDot name = false → route.table.column? name = some column →
    Q (route.endOnColumn column name)

namespace Walk

variable {c : Catalog} {outer : Bool} {R : Route → Prop} {Q : Resolution → Prop} {path : String}
  {route : Route} {s : Segment} {segments : List Segment} {resolution : Resolution}
  {forced : Bool}

private theorem followTables (w : Walk c outer R Q) (h : R route)
    (components : ∀ s ∈ segments, s.IsComponent)
    (marked : forced = true ∨ ∀ last, segments.getLast? = some last → last.outer = outer)
    (found : c.followTables path forced route segments = .ok resolution) : Q resolution := by
  induction segments generalizing route with
  | nil => cases found
  | cons s rest ih =>
    obtain ⟨first, others⟩ := List.forall_mem_cons.mp components
    by_cases last : rest = []
    · subst last
      rcases Catalog.followTables_singleton_eq_ok_iff.mp found with
        ⟨column, hit, -, rfl⟩ | ⟨-, r, hit, rfl⟩
      · exact w.endOnColumn h first.hasDot_name hit
      · exact w.endOn h first hit (marked.imp_right fun same => same s rfl)
    · obtain ⟨-, r, crossed, found⟩ := (Catalog.followTables_cons_eq_ok_iff last).mp found
      rw [List.getLast?_cons_of_ne_nil last] at marked
      exact ih (w.cross h first crossed) others marked found

private theorem extendRoute (w : Walk c outer R Q) (h : R route)
    (marked : forced = true ∨ Navigator.endsOuter path = outer)
    (found : c.extendRoute route path forced = .ok resolution) : Q resolution := by
  obtain ⟨segments, read, found⟩ := Catalog.extendRoute_eq_ok_iff.mp found
  refine w.followTables h (fun s member => Path.isComponent_of_mem read member)
    (marked.imp_right fun same last behind => ?_) found
  rw [← Path.endsOuter_of_segments read behind, same]

theorem resolveTablePath {table : Table} {base : String}
    (w : Walk c (Navigator.endsOuter path) R Q) (start : R { table, path := base })
    (found : c.resolveTablePath table path base forced = .ok resolution) : Q resolution :=
  w.extendRoute start (.inr rfl) found

section Objects

variable (plain : ∀ table, ∀ r ∈ c.relationships table, Segment.IsPlain r.name)

include plain

private theorem isComponent_rename (component : s.IsComponent) {table hop : String}
    {r : Relationship} (found : c.relationship? table hop = some r)
    (undotted : Text.hasDot hop = false) :
    (s.rename hop).IsComponent := by
  have name : r.name = hop := by simpa using List.find?_some found
  rw [← name] at undotted ⊢
  exact component.rename (plain table r (List.mem_of_find?_eq_some found)) undotted

theorem crossAll (w : Walk c outer R Q) (h : R route) (component : s.IsComponent)
    {hops : List String} (undotted : ∀ hop ∈ hops, Text.hasDot hop = false) {reached : Route}
    (found : c.crossAll path s route hops = .ok reached) : R reached := by
  induction hops generalizing route with
  | nil =>
    rw [← Catalog.crossAll_nil_eq_ok_iff.mp found]
    exact h
  | cons hop hops ih =>
    obtain ⟨first, others⟩ := List.forall_mem_cons.mp undotted
    obtain ⟨r, crossed, found⟩ := Catalog.crossAll_cons_eq_ok_iff.mp found
    exact ih (w.cross h (isComponent_rename plain component crossed first) crossed) others found

/-- A path that ends on a relationship of an object ends on the last relationship that this one
stands for, with its own alias and mark, and does not ask for its join. -/
theorem exists_endOn_of_endOnObject (w : Walk c outer R Q) (h : R route)
    (component : s.IsComponent) {r : ObjectRelationship}
    (found : c.endOnObject route r s = .ok resolution) :
    ∃ (reached : Route) (hop : Relationship) (last : Segment), R reached ∧ last.IsComponent ∧
      last.outer = s.outer ∧ c.relationship? reached.table.name last.name = some hop ∧
      resolution = reached.endOn hop last false := by
  obtain ⟨reached, front, hop, last, rfl⟩ := Catalog.endOnObject_eq_ok_iff.mp found
  have at_last := w.crossAll plain h component
    (fun hop member => ObjectRelationship.hasDot_of_mem_frontHops member) front
  have undotted : Text.hasDot r.lastHop = false := Text.hasDot_cutLastDot_snd r.path
  exact ⟨reached, hop, s.rename r.lastHop, at_last,
    isComponent_rename plain component last undotted, rfl, last, rfl⟩

private theorem endOnObject (w : Walk c s.outer R Q) (h : R route) (component : s.IsComponent)
    {r : ObjectRelationship} (found : c.endOnObject route r s = .ok resolution) :
    Q resolution := by
  obtain ⟨reached, hop, last, at_last, formed, outer, named, rfl⟩ :=
    w.exists_endOn_of_endOnObject plain h component found
  exact w.endOn at_last formed named (.inr outer)

private theorem followObjects {last : Segment} (w : Walk c last.outer R Q) {object : ObjectEntity}
    (h : R route) (components : ∀ s ∈ segments, s.IsComponent)
    (behind : segments.getLast? = some last)
    (found : c.followObjects path object route segments = .ok resolution) : Q resolution := by
  induction segments generalizing object route with
  | nil => cases found
  | cons s rest ih =>
    obtain ⟨first, others⟩ := List.forall_mem_cons.mp components
    by_cases alone : rest = []
    · subst alone
      obtain rfl := Option.some.inj behind
      rcases Catalog.followObjects_singleton_eq_ok_iff.mp found with
        ⟨a, -, -, found⟩ | ⟨-, r, -, found⟩
      · exact w.extendRoute h (.inl rfl) found
      · exact w.endOnObject plain h first found
    · obtain ⟨-, r, -, reached, crossed, target, -, found⟩ :=
        (Catalog.followObjects_cons_eq_ok_iff alone).mp found
      have at_target := w.crossAll plain h first
        (fun hop member => Text.hasDot_of_mem_dotted member) crossed
      rw [List.getLast?_cons_of_ne_nil alone] at behind
      exact ih at_target others behind found

theorem resolveObjectPath {object : ObjectEntity} {base : String}
    (w : Walk c (Navigator.endsOuter path) R Q)
    (start : ∀ table, c.tableFor object = .ok table → R { table, path := base })
    (found : c.resolveObjectPath object path base = .ok resolution) : Q resolution := by
  obtain ⟨segments, read, table, mapped, found⟩ :=
    Catalog.resolveObjectPath_eq_ok_iff.mp found
  obtain ⟨last, behind⟩ :=
    Option.isSome_iff_exists.mp (List.getLast?_isSome.mpr (Path.ne_nil_of_segments read))
  rw [Path.endsOuter_of_segments read behind] at w
  exact w.followObjects plain (start table mapped)
    (fun s member => Path.isComponent_of_mem read member) behind found

end Objects

end Walk

end ObjectRelational
