import ObjectRelational.Proofs.Path.Location

set_option autoImplicit false
set_option relaxedAutoImplicit false

/-!
The shape of the table tree behind any run of requests. The joins of a walk continue the path that
it started from component by component, and the last character of a table's path says whether its
join keeps rows without a partner. Where no request continues a parent path, a table is so only
joined behind one that is there: the root or a table joined earlier.
-/

namespace ObjectRelational

open Navigator (endsOuter memoKey)

/-- Joins that continue a base path to a path, one for each component. -/
inductive Chain (base : String) : List TableJoin → String → Prop
  | start : Chain base [] base
  | cross {joins : List TableJoin} {path : String} {s : Segment} (r : Relationship) :
      Chain base joins path → s.IsComponent →
      Chain base (joins ++ [⟨Path.append path s.text, r, .ofOuter s.outer⟩])
        (Path.append path s.text)

def TableJoin.IsMarked (j : TableJoin) : Prop :=
  j.joinType = .leftOuter ↔ endsOuter j.path = true

private theorem JoinType.ofOuter_eq_leftOuter_iff {outer : Bool} :
    ofOuter outer = leftOuter ↔ outer = true := by
  cases outer <;> simp [ofOuter]

private theorem Chain.isMarked {base path : String} {joins : List TableJoin}
    (h : Chain base joins path) : ∀ j ∈ joins, j.IsMarked := by
  induction h with
  | start => exact List.forall_mem_nil _
  | @cross joins path s r _ component ih =>
    refine List.forall_mem_append.mpr ⟨ih, List.forall_mem_singleton.mpr ?_⟩
    rw [TableJoin.IsMarked, Path.endsOuter_append path component]
    exact JoinType.ofOuter_eq_leftOuter_iff

/-- The joins of a resolution continue a base path. A relationship that it ends on is joined, or
it is one component more, which has the mark or not. -/
def Resolution.Chained (resolution : Resolution) (base : String) (outer : Bool) : Prop :=
  ∃ path, Chain base resolution.joins path ∧
    ∀ r, resolution.destination.relationship? = some r →
      (∃ j ∈ resolution.joins, j.path = resolution.destination.finalPath) ∨
        ∃ s : Segment, s.IsComponent ∧ s.outer = outer ∧
          resolution.destination.finalPath = Path.append path s.text

section Walks

variable {c : Catalog} {base path : String} {outer : Bool} {route : Route} {s : Segment}
  {resolution : Resolution} {forced : Bool}

namespace Chain

private theorem endOn (h : Chain base route.joins route.path) (r : Relationship)
    (component : s.IsComponent) (marked : forced = true ∨ s.outer = outer) :
    (route.endOn r s forced).Chained base outer := by
  unfold Route.endOn
  split
  · exact ⟨_, h.cross r component, fun _ _ => .inl ⟨_, List.mem_concat_self, rfl⟩⟩
  · rename_i unneeded
    have unforced : forced ≠ true := by
      rintro rfl
      exact unneeded rfl
    exact ⟨_, h, fun _ _ => .inr ⟨s, component, marked.resolve_left unforced, rfl⟩⟩

private theorem endOnColumn (h : Chain base route.joins route.path) (column : Column)
    (name : String) : (route.endOnColumn column name).Chained base outer := by
  refine ⟨route.path, h, ?_⟩
  intro r last
  cases last

end Chain

theorem walk_chained (c : Catalog) (base : String) (outer : Bool) :
    Walk c outer (fun route => Chain base route.joins route.path) (·.Chained base outer) where
  cross h component _ := h.cross _ component
  endOn h component _ marked := h.endOn _ component marked
  endOnColumn h _ _ := h.endOnColumn _ _

private theorem Catalog.chained_of_resolveTablePath {table : Table}
    (found : c.resolveTablePath table path base forced = .ok resolution) :
    resolution.Chained base (endsOuter path) :=
  (walk_chained c base _).resolveTablePath .start found

private theorem Catalog.chained_of_resolveObjectPath
    (plain : ∀ table, ∀ r ∈ c.relationships table, Segment.IsPlain r.name) {object : ObjectEntity}
    (found : c.resolveObjectPath object path base = .ok resolution) :
    resolution.Chained base (endsOuter path) :=
  (walk_chained c base _).resolveObjectPath plain (fun _ _ => .start) found

end Walks

namespace TableTree

variable {t : TableTree}

/-- Each joined table keeps rows without a partner just if its path ends on the mark. -/
def IsMarked (t : TableTree) : Prop :=
  ∀ node ∈ t.joins, node.joinType = .leftOuter ↔ endsOuter node.path = true

/-- In front of its last component, the path of a joined table is that of the root or of a table
joined earlier. -/
def IsPrefixClosed (t : TableTree) : Prop :=
  ∀ before node after, t.joins = before ++ node :: after →
    ∃ earlier ∈ root :: before, earlier.path = (Text.cutLastDot node.path).1

private theorem IsMarked.addJoins (h : t.IsMarked) {joins : List TableJoin}
    (marked : ∀ j ∈ joins, j.IsMarked) : (t.addJoins joins).IsMarked := by
  intro node member
  rcases of_mem_addJoins member with before | ⟨j, hj, attaches⟩
  · exact h node before
  · rw [attaches.joinType, attaches.path]
    exact marked j hj

private theorem IsPrefixClosed.addJoin (h : t.IsPrefixClosed) {j : TableJoin}
    (front : t.hasPath (Text.cutLastDot j.path).1 = true) : (t.addJoin j).2.IsPrefixClosed := by
  rcases t.addJoin_cases j with ⟨-, same⟩ | ⟨added, attaches, joins⟩
  · rwa [same]
  · intro before node after split
    rw [joins] at split
    rcases List.eq_nil_or_concat after with rfl | ⟨rest, last, rfl⟩
    · -- The table is the one that was added behind all others.
      obtain ⟨rfl, same⟩ := List.append_inj' split rfl
      obtain rfl := List.singleton_inj.mp same
      rw [attaches.path]
      exact List.mem_map.mp ((t.hasPath_iff _).mp front)
    · rw [List.concat_eq_append, ← List.cons_append, ← List.append_assoc] at split
      exact h before node rest (List.append_inj' split rfl).1

private theorem IsPrefixClosed.addJoins (h : t.IsPrefixClosed) {joins : List TableJoin}
    {base path : String} (chain : Chain base joins path) (there : t.hasPath base = true) :
    (t.addJoins joins).IsPrefixClosed ∧ (t.addJoins joins).hasPath path = true := by
  induction chain with
  | start => exact ⟨h, there⟩
  | @cross joins path s r _ component ih =>
    obtain ⟨closed, reached⟩ := ih
    rw [addJoins_append]
    refine ⟨closed.addJoin ?_, hasPath_addJoin.mpr (.inr rfl)⟩
    rwa [Path.cutLastDot_append path component.undotted]

/-- A join at the end of what was found for a key fits in: its table is there, or it is joined by
one component behind a table of the tree, with the mark that the key ends on. Where requests may
continue parent paths, the table in front need not be there. -/
def Fits (t : TableTree) (rooted : Prop) (key : String) (d : Destination) : Prop :=
  ∀ r, d.relationship? = some r → t.hasPath d.finalPath = true ∨
    ∃ path, ∃ s : Segment, s.IsComponent ∧ s.outer = endsOuter key ∧
      d.finalPath = Path.append path s.text ∧ (rooted → t.hasPath path = true)

private theorem Fits.grow {rooted : Prop} {key : String} {d : Destination} (h : t.Fits rooted key d)
    {more : TableTree} (grown : ∀ path, t.hasPath path = true → more.hasPath path = true) :
    more.Fits rooted key d := by
  intro r last
  rcases h r last with there | ⟨path, s, component, outer, same, front⟩
  · exact .inl (grown _ there)
  · exact .inr ⟨path, s, component, outer, same, fun own => grown _ (front own)⟩

end TableTree

def Request.base : Request → String
  | .object _ _ parent | .table _ _ parent _ => parent.getD ""
  | .id .. => ""

private theorem endsOuter_memoKey (parent : Option String) (entity : String) {path : String}
    (nonempty : path ≠ "") : endsOuter (memoKey parent entity path) = endsOuter path :=
  endsOuter_append _ nonempty

namespace Navigator

variable {n : Navigator} {c : Catalog} {rooted : Prop}

/-- The tree has its shape, and a join at the end of what is kept fits in. -/
structure Shaped (n : Navigator) (c : Catalog) (rooted : Prop) : Prop where
  catalog : n.catalog = c
  marked : n.tree.IsMarked
  closed : rooted → n.tree.IsPrefixClosed
  kept : ∀ key d, n.objectPaths.lookup? key = some (.ok d) → n.tree.Fits rooted key d

theorem shaped_start (c : Catalog) (rooted : Prop) : (start c).Shaped c rooted := by
  refine ⟨rfl, List.forall_mem_nil _, ?_, ?_⟩
  · intro _ before node after split
    cases before <;> cases split
  · intro key d found
    cases found

private theorem Shaped.addJoins (h : n.Shaped c rooted) {joins : List TableJoin}
    {base path : String} (chain : Chain base joins path)
    (there : rooted → n.tree.hasPath base = true) :
    Shaped { n with tree := n.tree.addJoins joins } c rooted := by
  refine ⟨h.catalog, h.marked.addJoins chain.isMarked, ?_, ?_⟩
  · intro own
    exact ((h.closed own).addJoins chain (there own)).1
  · intro key d found
    exact (h.kept key d found).grow fun _ there => TableTree.hasPath_addJoins.mpr (.inl there)

private theorem Shaped.register (h : n.Shaped c rooted) {resolution : Resolution}
    {base key : String} (chained : resolution.Chained base (endsOuter key))
    (root : rooted → base = "") :
    (n.register (.ok resolution)).Shaped c rooted ∧
      (n.register (.ok resolution)).tree.Fits rooted key resolution.destination := by
  obtain ⟨path, chain, ends⟩ := chained
  have there : rooted → n.tree.hasPath base = true := by
    intro own
    rw [root own]
    exact n.tree.hasPath_root
  refine ⟨h.addJoins chain there, ?_⟩
  intro r last
  rcases ends r last with joined | ⟨s, component, outer, same⟩
  · exact .inl (TableTree.hasPath_addJoins.mpr (.inr joined))
  · refine .inr ⟨path, s, component, outer, same, ?_⟩
    intro own
    exact ((h.closed own).addJoins chain (there own)).2

private theorem ne_of_resolveObjectPath {object : ObjectEntity} {path base : String}
    {resolution : Resolution} (found : c.resolveObjectPath object path base = .ok resolution) :
    path ≠ "" := by
  rintro rfl
  cases found

private theorem lookup?_objectPath (n : Navigator) (object : ObjectEntity) (path : String)
    (parent : Option String) :
    (n.objectPath object path parent).2.objectPaths.lookup? (memoKey parent object.name path) =
      some (n.objectPath object path parent).1 := by
  rcases n.objectPath_cases object path parent with ⟨kept, found, answer⟩ | ⟨absent, answer⟩
  · rw [answer]
    exact found
  · rw [answer]
    exact Memo.lookup?_remember_self _ _ _ absent

private theorem addJoin_of_registered {j : TableJoin} (there : n.tree.hasPath j.path = true) :
    (n.addJoin j).2 = n := by
  rw [addJoin, TableTree.addJoin_of_registered n.tree j there]

section Requests

variable (plain : ∀ table, ∀ r ∈ c.relationships table, Segment.IsPlain r.name)

private theorem Shaped.tablePath (h : n.Shaped c rooted) (table : Table) (path : String)
    (parent : Option String) (forced : Bool) (root : rooted → parent.getD "" = "") :
    (n.tablePath table path parent forced).2.Shaped c rooted := by
  rcases n.tablePath_cases table path parent forced with ⟨kept, -, answer⟩ | ⟨-, answer⟩
  · rw [answer]
    exact ⟨h.catalog, h.marked, h.closed, h.kept⟩
  · rw [answer, h.catalog]
    cases found : c.resolveTablePath table path (parent.getD "") forced with
    | error e => exact ⟨h.catalog, h.marked, h.closed, h.kept⟩
    | ok resolution =>
      have registered := (h.register (Catalog.chained_of_resolveTablePath found) root).1
      exact ⟨registered.catalog, registered.marked, registered.closed, registered.kept⟩

include plain

private theorem Shaped.objectPath (h : n.Shaped c rooted) (object : ObjectEntity) (path : String)
    (parent : Option String) (root : rooted → parent.getD "" = "") :
    (n.objectPath object path parent).2.Shaped c rooted := by
  rcases n.objectPath_cases object path parent with ⟨kept, -, answer⟩ | ⟨absent, answer⟩
  · rw [answer]
    exact ⟨h.catalog, h.marked, h.closed, h.kept⟩
  · rw [answer, h.catalog]
    cases found : c.resolveObjectPath object path (parent.getD "") with
    | error e =>
      refine ⟨h.catalog, h.marked, h.closed, fun key d later => ?_⟩
      rcases Memo.lookup?_remember_cases absent later with before | ⟨-, now⟩
      · exact h.kept key d before
      · cases now
    | ok resolution =>
      have chained := Catalog.chained_of_resolveObjectPath plain found
      rw [← endsOuter_memoKey parent object.name (ne_of_resolveObjectPath found)] at chained
      obtain ⟨registered, fits⟩ := h.register chained root
      refine ⟨registered.catalog, registered.marked, registered.closed, fun key d later => ?_⟩
      rcases Memo.lookup?_remember_cases absent later with before | ⟨rfl, now⟩
      · exact registered.kept key d before
      · obtain rfl := Except.ok.inj now
        exact fits

theorem Shaped.idPath (h : n.Shaped c rooted) (object : ObjectEntity) (path : String) :
    (n.idPath object path).2.Shaped c rooted := by
  -- a path and what it leads to end on the mark together, or the table is there already
  have front := h.objectPath plain object (Text.cutLastDot path).1 none fun _ => rfl
  rcases n.idPath_cases object path with ⟨-, answer⟩ | ⟨through, rest⟩
  · rw [answer]
    exact h
  · rcases rest with ⟨e, -, answer⟩ | ⟨reached, -, -, answer⟩ | ⟨reached, r, led, last, answer⟩
    · rw [answer]
      exact front
    · rw [answer]
      exact front
    · rw [answer]
      have kept := n.lookup?_objectPath object (Text.cutLastDot path).1 none
      rw [led] at kept
      rcases front.kept _ reached kept r last with there | ⟨base, s, component, outer, same, own⟩
      · rwa [addJoin_of_registered there]
      · -- The key ends with the front, so the front has the mark of the last component.
        rw [endsOuter_memoKey none object.name through] at outer
        have joined : lastJoin reached r (Text.cutLastDot path).1 =
            ⟨Path.append base s.text, r, .ofOuter s.outer⟩ := by
          rw [lastJoin, same, outer]
        rw [joined]
        exact front.addJoins (.cross r .start component) own

theorem Shaped.ask (h : n.Shaped c rooted) (q : Request) (root : rooted → q.base = "") :
    (n.ask q).2.Shaped c rooted := by
  cases q with
  | object object path parent => exact h.objectPath plain object path parent root
  | table table path parent forced => exact h.tablePath table path parent forced root
  | id object path => exact h.idPath plain object path

/-- In the tree behind a run of requests, a table keeps rows without a partner just if its path
ends on the mark. And if no request continues a parent path, each table is joined behind one that
is there. -/
theorem askAll_tree_isMarked_isPrefixClosed (requests : List Request) :
    let tree := ((start c).askAll requests).tree
    tree.IsMarked ∧ ((∀ q ∈ requests, q.base = "") → tree.IsPrefixClosed) := by
  intro tree
  have shaped : ((start c).askAll requests).Shaped c (∀ q ∈ requests, q.base = "") := by
    refine askAll_induction (P := fun n => n.Shaped c (∀ q ∈ requests, q.base = "")) ?_
      (shaped_start c _)
    intro n q member before
    exact before.ask plain q fun root => root q member
  exact ⟨shaped.marked, shaped.closed⟩

end Requests

open Gallery

theorem askAll_tree_isMarked_isPrefixClosed_gallery :
    let requests := [Request.id painting "toArtist+.NOPE",
      .object painting "toArtist+.paintings" none, .id painting "toArtist+.paintings.PAINTING_ID",
      .table paintingTable "toArtist#x.paintingArray+.ARTIST_ID" none false]
    let tree := ((start schema).askAll requests).tree
    tree.joins.map (·.path) =
        ["toArtist+", "toArtist+.paintingArray", "toArtist#x", "toArtist#x.paintingArray+"] ∧
      tree.IsMarked ∧ tree.IsPrefixClosed := by
  intro requests tree
  have linked := Catalog.linked_of_compile compile_map
  have plain : ∀ table, ∀ r ∈ schema.relationships table, Segment.IsPlain r.name :=
    linked.forall_relationships (by decide +kernel)
  obtain ⟨marked, closed⟩ := askAll_tree_isMarked_isPrefixClosed plain requests
  exact ⟨by decide +kernel, marked, closed (by decide +kernel)⟩

end Navigator

end ObjectRelational
