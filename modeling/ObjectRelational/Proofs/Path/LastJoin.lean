import ObjectRelational.Proofs.Path.Ending
import ObjectRelational.Proofs.Path.Expansion
import ObjectRelational.Proofs.Path.IdPath
import ObjectRelational.Proofs.Path.TreeShape

set_option autoImplicit false
set_option relaxedAutoImplicit false

/-!
What an id path leaves in the table tree: the joins of the path in front of the name, and the table
behind the relationship that this path ends on, if it is not there already. Whichever request has
joined that table, it is joined by that relationship, and the path in front of the name tells how.
-/

namespace ObjectRelational

open Navigator (endsOuter)

private theorem Chain.length_le {base path : String} {joins : List TableJoin}
    (h : Chain base joins path) : ∀ j ∈ joins, j.path.length ≤ path.length := by
  induction h with
  | start => exact List.forall_mem_nil _
  | @cross joins path s r _ component ih =>
    have longer := Path.length_lt_append path component.text_ne
    refine List.forall_mem_append.mpr ⟨fun j member => ?_, ?_⟩
    · exact Nat.le_trans (ih j member) (Nat.le_of_lt longer)
    · exact List.forall_mem_singleton.mpr (Nat.le_refl _)

namespace Resolution

/-- The resolution ends on the relationship, by a segment with the mark or without it, and joins it
only where it has to. -/
def EndsOn (resolution : Resolution) (outer : Bool) (r : Relationship) : Prop :=
  ∃ (reached : Route) (s : Segment), Chain "" reached.joins reached.path ∧ s.IsComponent ∧
    s.outer = outer ∧ resolution = reached.endOn r s false

variable {resolution : Resolution} {outer : Bool} {r : Relationship}

private theorem EndsOn.relationship?_eq (h : resolution.EndsOn outer r) :
    resolution.destination.relationship? = some r := by
  obtain ⟨reached, s, -, -, -, rfl⟩ := h
  exact reached.relationship?_endOn r s false

private theorem EndsOn.finalPath_ne (h : resolution.EndsOn outer r) :
    resolution.destination.finalPath ≠ "" := by
  obtain ⟨reached, s, -, component, -, rfl⟩ := h
  rw [reached.finalPath_endOn]
  exact Path.append_ne component.text_ne

private theorem EndsOn.endsOuter_finalPath (h : resolution.EndsOn outer r) :
    endsOuter resolution.destination.finalPath = outer := by
  obtain ⟨reached, s, -, component, marked, rfl⟩ := h
  rw [reached.finalPath_endOn, Path.endsOuter_append _ component, marked]

private theorem EndsOn.hasPath_addJoins_iff (h : resolution.EndsOn outer r) :
    TableTree.hasPath (TableTree.addJoins {} resolution.joins) resolution.destination.finalPath =
      true ↔ resolution.destination.isJoined = true := by
  have below_root := h.finalPath_ne
  obtain ⟨reached, s, chain, component, -, rfl⟩ := h
  rw [TableTree.hasPath_addJoins, reached.isJoined_endOn]
  constructor
  · rintro (root | ⟨j, member, path⟩)
    · exact absurd (List.mem_singleton.mp ((TableTree.hasPath_iff _ _).mp root)) below_root
    · by_contra unjoined
      -- the joins on the way are behind shorter paths
      have on_the_way : j ∈ reached.joins := by
        rwa [Route.endOn, if_neg unjoined] at member
      rw [reached.finalPath_endOn] at path
      have shorter := chain.length_le j on_the_way
      have longer := Path.length_lt_append reached.path component.text_ne
      rw [path] at shorter
      exact absurd shorter (Nat.not_le_of_lt longer)
  · intro joined
    exact .inr (reached.endOn_of_needsJoin s joined).2

end Resolution

namespace Catalog

/-- The segments lead from relationship to relationship, and the last one names a relationship as
well, and no attribute. -/
inductive NamesRelationship (c : Catalog) : ObjectEntity → List Segment → Prop
  | last {object : ObjectEntity} {s : Segment} {r : ObjectRelationship} :
      object.attribute? s.name = none → object.relationship? s.name = some r →
      NamesRelationship c object [s]
  | behind {object target : ObjectEntity} {s : Segment} {r : ObjectRelationship}
      {rest : List Segment} : object.relationship? s.name = some r →
      c.object? r.target = some target → NamesRelationship c target rest →
      NamesRelationship c object (s :: rest)

/-- A path through objects ends on a relationship of an object. -/
def EndsOnRelationship (c : Catalog) (object : ObjectEntity) (path : String) : Prop :=
  ∃ segments, Path.segments path = .ok segments ∧ c.NamesRelationship object segments

variable {c : Catalog} {object : ObjectEntity} {path : String} {resolution : Resolution}

private theorem NamesRelationship.ne_nil {segments : List Segment}
    (h : c.NamesRelationship object segments) : segments ≠ [] := by
  cases h <;> exact List.cons_ne_nil _ _

section Plain

variable (plain : ∀ table, ∀ r ∈ c.relationships table, Segment.IsPlain r.name)

include plain

private theorem NamesRelationship.endsOn {segments : List Segment}
    (names : c.NamesRelationship object segments) {route : Route}
    (chain : Chain "" route.joins route.path) (components : ∀ s ∈ segments, s.IsComponent)
    {last : Segment} (behind : segments.getLast? = some last)
    (found : c.followObjects path object route segments = .ok resolution) :
    ∃ r, resolution.EndsOn last.outer r := by
  have walk := walk_chained c "" last.outer
  induction names generalizing route with
  | @last object s r unattributed _ =>
    obtain rfl := Option.some.inj behind
    rcases followObjects_singleton_eq_ok_iff.mp found with ⟨a, found, -⟩ | ⟨-, named, -, found⟩
    · rw [unattributed] at found
      cases found
    · obtain ⟨reached, hop, last, at_last, formed, marked, -, ended⟩ :=
        walk.exists_endOn_of_endOnObject plain chain (components s List.mem_cons_self) found
      exact ⟨hop, reached, last, at_last, formed, marked, ended⟩
  | @behind object target s r rest named declared names ih =>
    obtain ⟨first, others⟩ := List.forall_mem_cons.mp components
    have more := names.ne_nil
    obtain ⟨-, r', named', reached, crossed, target', declared', found⟩ :=
      (followObjects_cons_eq_ok_iff more).mp found
    obtain rfl := Option.some.inj (named.symm.trans named')
    obtain rfl := Option.some.inj (declared.symm.trans (requireObject_eq_ok_iff.mp declared'))
    have at_target := walk.crossAll plain chain first
      (fun hop member => Text.hasDot_of_mem_dotted member) crossed
    rw [List.getLast?_cons_of_ne_nil more] at behind
    exact ih at_target others behind found

private theorem EndsOnRelationship.endsOn (ends : c.EndsOnRelationship object path)
    (found : c.resolveObjectPath object path "" = .ok resolution) :
    ∃ r, resolution.EndsOn (endsOuter path) r := by
  obtain ⟨segments, read, names⟩ := ends
  obtain ⟨segments', read', table, -, followed⟩ := resolveObjectPath_eq_ok_iff.mp found
  obtain rfl := Except.ok.inj (read.symm.trans read')
  obtain ⟨last, behind⟩ := Option.isSome_iff_exists.mp (List.getLast?_isSome.mpr names.ne_nil)
  rw [Path.endsOuter_of_segments read behind]
  exact names.endsOn plain .start (fun s member => Path.isComponent_of_mem read member) behind
    followed

end Plain

end Catalog

/-- A table that is there is joined by the relationship that its path crosses last, and keeps rows
without a partner just if its path ends on the mark, whoever asked for it. -/
private theorem TableTree.Grounded.exists_node {t : TableTree} {c : Catalog} {root : Table}
    {path : String} {r : Relationship} (grounded : t.Grounded c root) (marked : t.IsMarked)
    (crosses : c.Crosses root path r) (there : t.hasPath path = true) :
    ∃ node, t.node? path = some node ∧ node.relationship = some r ∧
      (node.joinType = .leftOuter ↔ endsOuter path = true) := by
  obtain ⟨node, found⟩ := Option.isSome_iff_exists.mp there
  have at_path : node.path = path := by simpa using List.find?_some found
  rcases List.mem_cons.mp (List.mem_of_find?_eq_some found) with rfl | joined
  · obtain ⟨_, component, _⟩ := crosses
    exact absurd at_path.symm (Path.append_ne component.text_ne)
  · obtain ⟨by_relationship, attached, crossed⟩ := grounded node joined
    have by_mark := marked node joined
    rw [at_path] at crossed by_mark
    obtain rfl := crossed.unique crosses
    exact ⟨node, found, attached, by_mark⟩

namespace Request

variable {c : Catalog} {root : Table} {q : Request}

private theorem StartsAt.base_eq (starts : q.StartsAt c root) : q.base = "" := by
  cases q with
  | object object path parent => exact starts.2
  | table table path parent forced => exact starts.2
  | id object path => rfl

private theorem StartsAt.parent_eq (starts : q.StartsAt c root) {l : ObjectLookup}
    (looked : q.lookup? = some l) : l.parent.getD "" = "" := by
  cases q with
  | object object path parent =>
    obtain rfl := Option.some.inj looked
    exact starts.2
  | table table path parent forced => cases looked
  | id object path =>
    dsimp only [lookup?] at looked
    split at looked
    · cases looked
    · obtain rfl := Option.some.inj looked
      rfl

end Request

namespace Navigator

private theorem idPath_of_behind {n : Navigator} {object : ObjectEntity} {path front name : String}
    (cut : Text.cutLastDot path = (front, name)) (through : front ≠ "") {d : Destination}
    (answered : (n.idPath object path).1 = .ok d) :
    let alone := n.objectPath object front none
    ∃ reached r, alone.1 = .ok reached ∧ reached.relationship? = some r ∧
      d.finalPath = reached.finalPath ∧
      (n.idPath object path).2.tree = (alone.2.tree.addJoin (lastJoin reached r front)).2 := by
  intro alone
  have cases_of_front := n.idPath_cases object path
  rw [cut] at cases_of_front
  rcases cases_of_front with ⟨own, -⟩ | ⟨-, ⟨e, -, answer⟩ | ⟨reached, -, -, answer⟩ |
    ⟨reached, r, led, last, answer⟩⟩
  · exact absurd own through
  · rw [answer] at answered
    cases answered
  · rw [answer] at answered
    cases answered
  · rw [answer] at answered ⊢
    obtain ⟨column, -, rfl⟩ := map_eq_ok_iff.mp answered
    exact ⟨reached, r, led, last, rfl, rfl⟩

private theorem Grounded.exists_node_of_idPath {n : Navigator} {c : Catalog} {root : Table}
    {rooted : Prop} (grounded : n.Grounded c root) (shaped : n.Shaped c rooted) (linked : c.Linked)
    (plain : ∀ table, ∀ r ∈ c.relationships table, Segment.IsPlain r.name) {object : ObjectEntity}
    (mapped : c.tableFor object = .ok root) {path front : String} {reached : Destination}
    {r : Relationship} (led : (n.objectPath object front none).1 = .ok reached)
    (last : reached.relationship? = some r)
    (there : (n.idPath object path).2.tree.hasPath reached.finalPath = true) :
    ∃ node, (n.idPath object path).2.tree.node? reached.finalPath = some node ∧
      node.relationship = some r ∧
      (node.joinType = .leftOuter ↔ endsOuter reached.finalPath = true) := by
  have rootKnown := Catalog.mem_tables_of_tableFor mapped
  have held := (grounded.objectPath linked rootKnown plain mapped front rfl).held reached led
  have grounded_after := (grounded.idPath linked rootKnown plain mapped path).navigator.tree
  have marked_after := (shaped.idPath plain object path).marked
  exact grounded_after.exists_node marked_after (held.located.crosses r last) there

section Rooted

variable {maps : List DataMap} {supply after : NameSupply} {c : Catalog}
  (compiled : Catalog.compile maps supply = (.ok c, after))
  (undotted : ∀ o ∈ c.objects, Text.hasDot o.name = false) {root : Table} {history : List Request}
  (starts : ∀ q ∈ history, q.StartsAt c root)
  (known : ∀ l ∈ history.filterMap Request.lookup?, l.object ∈ c.objects) {object : ObjectEntity}
  (declared : object ∈ c.objects)

include compiled undotted starts known declared

private theorem objectPath_as_resolved (path : String) :
    (((start c).askAll history).objectPath object path none).1 =
      (c.resolveObjectPath object path "").map (·.destination) := by
  have recalling := (recalling_start c).askAll history
  have linked := Catalog.linked_of_compile compiled
  let next : ObjectLookup := ⟨object, path, none⟩
  have unconfused : ∀ l ∈ history.filterMap Request.lookup?, l.key = next.key →
      l.parts = next.parts := by
    intro l member same
    obtain ⟨q, asked, looked⟩ := List.mem_filterMap.mp member
    have depth : (Text.dotted (l.parent.getD "")).length =
        (Text.dotted (next.parent.getD "")).length := by
      rw [(starts q asked).parent_eq looked]
      rfl
    exact ObjectLookup.parts_eq_of_key_eq same depth (undotted _ (known l member))
      (undotted _ declared)
  have first := linked.resolve_first known declared unconfused
  calc (((start c).askAll history).objectPath object path none).1
      = c.outcome _ := recalling.objectPath_fst next
    _ = c.outcome next := congrArg (·.map (·.destination)) first

/-- What an id path adds to the path in front of its name: where that path ends on a relationship of
an object, the table behind it, unless it is there. Then the table is joined by that relationship,
and it keeps rows without a partner just if the path ends on the mark. On a navigator that was not
asked anything yet, the table is added just if the path ends on it without its join. -/
theorem idPath_joins_last
    (plain : ∀ table, ∀ r ∈ c.relationships table, Segment.IsPlain r.name)
    (mapped : c.tableFor object = .ok root) {path front name : String}
    (cut : Text.cutLastDot path = (front, name)) (ends : c.EndsOnRelationship object front)
    {d : Destination} (answered : (((start c).askAll history).idPath object path).1 = .ok d) :
    let n := (start c).askAll history
    let alone := n.objectPath object front none
    let tree := (n.idPath object path).2.tree
    ∃ reached r, alone.1 = .ok reached ∧
      (c.resolveObjectPath object front "").map (·.destination) = .ok reached ∧
      reached.relationship? = some r ∧ d.finalPath = reached.finalPath ∧
      (alone.2.tree.hasPath d.finalPath = true → tree = alone.2.tree) ∧
      (alone.2.tree.hasPath d.finalPath = false →
        ∃ node : TableNode, node.path = d.finalPath ∧
          tree.nodes = alone.2.tree.nodes ++ [node]) ∧
      (∃ node, tree.node? d.finalPath = some node ∧ node.relationship = some r ∧
        (node.joinType = .leftOuter ↔ endsOuter front = true)) ∧
      (history = [] → (alone.2.tree.hasPath d.finalPath = false ↔ reached.isJoined = false)) := by
  intro n alone tree
  have linked := Catalog.linked_of_compile compiled
  have through : front ≠ "" := by
    rintro rfl
    obtain ⟨segments, read, -⟩ := ends
    cases read
  obtain ⟨reached, r, led, last, place, grown⟩ : ∃ reached r, alone.1 = .ok reached ∧
      reached.relationship? = some r ∧ d.finalPath = reached.finalPath ∧
      tree = (alone.2.tree.addJoin (lastJoin reached r front)).2 :=
    idPath_of_behind (n := n) cut through answered
  have led_own : (c.resolveObjectPath object front "").map (·.destination) = .ok reached :=
    (objectPath_as_resolved compiled undotted starts known declared front).symm.trans led
  obtain ⟨resolution, resolves, rfl⟩ := map_eq_ok_iff.mp led_own
  obtain ⟨r', resolved⟩ := ends.endsOn plain resolves
  obtain rfl := Option.some.inj (resolved.relationship?_eq.symm.trans last)
  rw [place]
  refine ⟨resolution.destination, r', led, led_own, last, rfl, ?_, ?_, ?_, ?_⟩
  · intro there
    rw [grown, TableTree.addJoin_of_registered _ _ there]
  · intro absent
    rw [grown, TableTree.nodes_addJoin_of_new _ _ absent]
    exact ⟨_, rfl, rfl⟩
  · have there : tree.hasPath resolution.destination.finalPath = true := by
      rw [grown]
      exact TableTree.hasPath_addJoin.mpr (.inr rfl)
    have rootKnown := Catalog.mem_tables_of_tableFor mapped
    have grounded : n.Grounded c root :=
      (grounded_start c root).askAll linked rootKnown plain starts
    have shaped : n.Shaped c True :=
      askAll_induction (P := fun n => n.Shaped c True)
        (fun n q member before => before.ask plain q fun _ => (starts q member).base_eq)
        (shaped_start c True)
    obtain ⟨node, found, attached, marked⟩ :=
      grounded.exists_node_of_idPath shaped linked plain mapped led last there
    rw [resolved.endsOuter_finalPath] at marked
    exact ⟨node, found, attached, marked⟩
  · rintro rfl
    have fresh : alone.2.tree = TableTree.addJoins {} resolution.joins := by
      change ((start c).register (c.resolveObjectPath object front "")).tree = _
      rw [resolves]
      rfl
    rw [fresh, ← Bool.not_eq_true, ← Bool.not_eq_true, resolved.hasPath_addJoins_iff]

end Rooted

open Gallery

/-- The artist of another painting of the artist of a painting: where the path leads is kept, and
its last table is not joined yet. -/
theorem idPath_joins_last_artist :
    let history := [Request.table paintingTable "toArtist+.ARTIST_NAME" none false,
      .object painting "toArtist.paintings.toArtist+" none]
    let n := (start schema).askAll history
    let answer := n.idPath painting "toArtist.paintings.toArtist+.ARTIST_ID"
    n.tree.joins.map (·.path) = ["toArtist+", "toArtist", "toArtist.paintingArray"] ∧
      ∃ d, answer.1 = .ok d ∧ d.finalPath = "toArtist.paintingArray.toArtist+" ∧
        (∃ node : TableNode, node.path = d.finalPath ∧
          answer.2.tree.nodes = n.tree.nodes ++ [node]) ∧
        ∃ node r, answer.2.tree.node? d.finalPath = some node ∧ node.relationship = some r ∧
          r.target = artistTable ∧ node.joinType = .leftOuter := by
  intro history n answer
  have linked := Catalog.linked_of_compile compile_map
  have plain : ∀ table, ∀ r ∈ schema.relationships table, Segment.IsPlain r.name :=
    linked.forall_relationships (by decide +kernel)
  have starts : ∀ q ∈ history, q.StartsAt schema paintingTable :=
    List.forall_mem_cons.mpr ⟨⟨rfl, rfl⟩, List.forall_mem_singleton.mpr ⟨rfl, rfl⟩⟩
  have cut : Text.cutLastDot "toArtist.paintings.toArtist+.ARTIST_ID" =
      ("toArtist.paintings.toArtist+", "ARTIST_ID") := by decide +kernel
  have ends : schema.EndsOnRelationship painting "toArtist.paintings.toArtist+" :=
    ⟨[⟨"toArtist", none, false⟩, ⟨"paintings", none, false⟩, ⟨"toArtist", none, true⟩],
      by decide +kernel, .behind rfl rfl (.behind rfl rfl (.last rfl rfl))⟩
  have found : ∃ d, answer.1 = .ok d ∧ d.finalPath = "toArtist.paintingArray.toArtist+" :=
    ⟨_, rfl, rfl⟩
  obtain ⟨d, answered, place⟩ := found
  obtain ⟨reached, r, led, -, last, -, -, added, ⟨node, there, attached, marked⟩, -⟩ :=
    idPath_joins_last compile_map (by decide +kernel) starts (by decide +kernel)
      (by decide +kernel) plain rfl cut ends answered
  have front : ∃ reached r, (n.objectPath painting "toArtist.paintings.toArtist+" none).1 =
      .ok reached ∧ reached.relationship? = some r ∧ r.target = artistTable :=
    ⟨_, _, rfl, rfl, rfl⟩
  obtain ⟨reached', r', led', last', target⟩ := front
  obtain rfl := Except.ok.inj (led.symm.trans led')
  obtain rfl := Option.some.inj (last.symm.trans last')
  have absent : n.tree.hasPath d.finalPath = false := by
    rw [place]
    decide +kernel
  exact ⟨by decide +kernel, d, answered, place, added absent, node, r, there, attached, target,
    marked.mpr (by decide +kernel)⟩

end Navigator

end ObjectRelational
