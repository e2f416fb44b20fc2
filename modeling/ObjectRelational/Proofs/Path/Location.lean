import ObjectRelational.Proofs.Catalog.Linked
import ObjectRelational.Proofs.Path.Requests
import ObjectRelational.Proofs.Path.Walk

set_option autoImplicit false
set_option relaxedAutoImplicit false

/-!
Where the columns of a destination are. A path from one table determines the table that it leads
to, since it can be cut into its segments again. So all requests that start at one table agree on
the tables of their joins, whichever of them registered a join first, and a destination's columns
belong to the table that is joined at their path.
-/

namespace ObjectRelational

namespace Catalog

inductive Reaches (c : Catalog) (root : Table) : String → Table → Prop
  | start : Reaches c root "" root
  | cross {path : String} {table : Table} {s : Segment} {r : Relationship} :
      Reaches c root path table → s.IsComponent →
      c.relationship? table.name s.name = some r →
      Reaches c root (Path.append path s.text) r.target

/-- The last component of the path crosses the relationship. -/
inductive Crosses (c : Catalog) (root : Table) : String → Relationship → Prop
  | last {path : String} {table : Table} {s : Segment} {r : Relationship} :
      Reaches c root path table → s.IsComponent →
      c.relationship? table.name s.name = some r →
      Crosses c root (Path.append path s.text) r

variable {c : Catalog} {root table : Table} {path : String} {r : Relationship}

private theorem Crosses.reaches (h : c.Crosses root path r) : c.Reaches root path r.target := by
  obtain ⟨front, component, found⟩ := h
  exact .cross front component found

private theorem Reaches.unique (h : c.Reaches root path table) {other : Table}
    (h' : c.Reaches root path other) : table = other := by
  -- the last segment and what stands in front of it can be read off a path
  induction h generalizing other with
  | start =>
    generalize whole : "" = path at h'
    cases h' with
    | start => rfl
    | cross _ component _ => exact absurd whole.symm (Path.append_ne component.text_ne)
  | @cross path table s r front component found ih =>
    generalize whole : Path.append path s.text = extended at h'
    cases h' with
    | start => exact absurd whole (Path.append_ne component.text_ne)
    | @cross path' table' s' r' front' component' found' =>
      obtain ⟨rfl, rfl⟩ := Path.append_text_inj component component' whole
      obtain rfl := ih front'
      obtain rfl := Option.some.inj (found.symm.trans found')
      rfl

theorem Crosses.unique (h : c.Crosses root path r) {other : Relationship}
    (h' : c.Crosses root path other) : r = other := by
  cases h with
  | @last path table s r front component found =>
    generalize whole : Path.append path s.text = extended at h'
    cases h' with
    | @last path' table' s' r' front' component' found' =>
      obtain ⟨rfl, rfl⟩ := Path.append_text_inj component component' whole
      obtain rfl := front.unique front'
      exact Option.some.inj (found.symm.trans found')

private theorem Reaches.mem_tables (linked : c.Linked) (rootKnown : root ∈ c.tables)
    (h : c.Reaches root path table) : table ∈ c.tables := by
  induction h with
  | start => exact rootKnown
  | cross _ _ found ih => exact linked.target_of_relationship? ih found

end Catalog

namespace Destination

def tablePath (d : Destination) : String :=
  match d.terminal with
  | .attribute _ => (Text.cutLastDot d.finalPath).1
  | .id _ => d.finalPath
  | .relationship _ _ columnPath _ => columnPath

/-- The columns are where their path leads to, and a final relationship is crossed last. -/
structure Located (d : Destination) (c : Catalog) (root : Table) : Prop where
  columns : ∃ table, c.Reaches root d.tablePath table ∧
    ∀ column ∈ d.columns, column ∈ table.columns
  crosses : ∀ r, d.relationship? = some r → c.Crosses root d.finalPath r

private theorem Located.id {c : Catalog} {root table : Table} {path : String} {column : Column}
    (reached : c.Reaches root path table) (member : column ∈ table.columns) :
    Located ⟨path, .id column⟩ c root := by
  refine ⟨⟨table, reached, ?_⟩, ?_⟩
  · intro other same
    exact List.mem_singleton.mp same ▸ member
  · intro r last
    cases last

private theorem tablePath_attribute (path : String) {name : String}
    (undotted : Text.hasDot name = false) (column : Column) :
    tablePath ⟨Path.append path name, .attribute column⟩ = path :=
  congrArg Prod.fst (Path.cutLastDot_append path undotted)

private theorem Located.attribute {c : Catalog} {root table : Table} {path name : String}
    {column : Column} (reached : c.Reaches root path table) (undotted : Text.hasDot name = false)
    (member : column ∈ table.columns) :
    Located ⟨Path.append path name, .attribute column⟩ c root := by
  refine ⟨⟨table, (tablePath_attribute path undotted column).symm ▸ reached, ?_⟩, ?_⟩
  · intro other same
    exact List.mem_singleton.mp same ▸ member
  · intro r last
    cases last

end Destination

/-- The route leads from the root to its table, over its joins. -/
structure Route.Grounded (route : Route) (c : Catalog) (root : Table) : Prop where
  reaches : c.Reaches root route.path route.table
  joined : route.path = "" ∨ ∃ j ∈ route.joins, j.path = route.path
  crossed : ∀ j ∈ route.joins, c.Crosses root j.path j.relationship

structure Resolution.Grounded (resolution : Resolution) (c : Catalog) (root : Table) : Prop where
  located : resolution.destination.Located c root
  joined : resolution.destination.tablePath = "" ∨
    ∃ j ∈ resolution.joins, j.path = resolution.destination.tablePath
  crossed : ∀ j ∈ resolution.joins, c.Crosses root j.path j.relationship

namespace Route

variable {c : Catalog} {root : Table} {route : Route} {s : Segment} {r : Relationship}

private theorem grounded_start (c : Catalog) (root : Table) :
    Route.Grounded { table := root, path := "" } c root :=
  ⟨.start, .inl rfl, List.forall_mem_nil _⟩

private theorem Grounded.cross (h : route.Grounded c root) (component : s.IsComponent)
    (found : c.relationship? route.table.name s.name = some r) :
    (route.cross r s).Grounded c root := by
  refine ⟨.cross h.reaches component found, .inr ⟨_, List.mem_concat_self, rfl⟩, ?_⟩
  intro j member
  rcases List.mem_append.mp member with member | member
  · exact h.crossed j member
  · rw [List.mem_singleton.mp member]
    exact .last h.reaches component found

private theorem Grounded.endOn (linked : c.Linked) (rootKnown : root ∈ c.tables)
    (h : route.Grounded c root) (component : s.IsComponent)
    (found : c.relationship? route.table.name s.name = some r) (forced : Bool) :
    (route.endOn r s forced).Grounded c root := by
  have crosses : ∀ last, (route.endOn r s forced).destination.relationship? = some last →
      c.Crosses root (route.endOn r s forced).destination.finalPath last := by
    intro last same
    rw [relationship?_endOn] at same
    obtain rfl := Option.some.inj same
    rw [finalPath_endOn]
    exact .last h.reaches component found
  revert crosses
  unfold Route.endOn
  split
  · intro crosses
    have reached := h.cross component found
    have columns : ∀ column ∈ r.target.keyColumns, column ∈ r.target.columns :=
      fun column member => List.mem_of_mem_filter member
    exact ⟨⟨⟨r.target, reached.reaches, columns⟩, crosses⟩, reached.joined, reached.crossed⟩
  · intro crosses
    have known := h.reaches.mem_tables linked rootKnown
    have columns := linked.sourceColumns_of_relationship? known found
    exact ⟨⟨⟨route.table, h.reaches, columns⟩, crosses⟩, h.joined, h.crossed⟩

private theorem Grounded.endOnColumn (h : route.Grounded c root) {column : Column} {name : String}
    (undotted : Text.hasDot name = false) (found : route.table.column? name = some column) :
    (route.endOnColumn column name).Grounded c root := by
  have front : (route.endOnColumn column name).destination.tablePath = route.path :=
    Destination.tablePath_attribute route.path undotted column
  have member : column ∈ route.table.columns := List.mem_of_find?_eq_some found
  exact ⟨.attribute h.reaches undotted member, front ▸ h.joined, h.crossed⟩

end Route

section Walks

variable {c : Catalog} {root : Table} {path : String} {resolution : Resolution} {forced : Bool}
  (linked : c.Linked) (rootKnown : root ∈ c.tables)

include linked rootKnown

private theorem walk_grounded (outer : Bool) :
    Walk c outer (·.Grounded c root) (·.Grounded c root) where
  cross h component found := h.cross component found
  endOn h component found _ := h.endOn linked rootKnown component found _
  endOnColumn h undotted found := h.endOnColumn undotted found

private theorem Catalog.grounded_of_resolveTablePath
    (found : c.resolveTablePath root path "" forced = .ok resolution) :
    resolution.Grounded c root :=
  (walk_grounded linked rootKnown _).resolveTablePath (Route.grounded_start c root) found

private theorem Catalog.grounded_of_resolveObjectPath
    (plain : ∀ table, ∀ r ∈ c.relationships table, Segment.IsPlain r.name) {object : ObjectEntity}
    (mapped : c.tableFor object = .ok root)
    (found : c.resolveObjectPath object path "" = .ok resolution) :
    resolution.Grounded c root := by
  refine (walk_grounded linked rootKnown _).resolveObjectPath plain ?_ found
  intro table hit
  obtain rfl := Except.ok.inj (mapped.symm.trans hit)
  exact Route.grounded_start c root

end Walks

def Memo.Keeps (m : Memo) (P : Destination → Prop) : Prop :=
  ∀ key d, m.lookup? key = some (.ok d) → P d

private theorem Memo.Keeps.imp {m : Memo} {P Q : Destination → Prop} (h : m.Keeps P)
    (weaker : ∀ d, P d → Q d) : m.Keeps Q :=
  fun key d found => weaker d (h key d found)

theorem Memo.lookup?_remember_cases {m : Memo} {key other : String}
    {result kept : Except MappingError Destination} (absent : m.lookup? key = none)
    (found : (m.remember key result).lookup? other = some kept) :
    m.lookup? other = some kept ∨ (other = key ∧ result = kept) := by
  by_cases same : other = key
  · rw [same, lookup?_remember_self m key result absent] at found
    exact .inr ⟨same, Option.some.inj found⟩
  · rw [lookup?_remember_of_ne m result same] at found
    exact .inl found

private theorem Memo.Keeps.remember {m : Memo} {P : Destination → Prop} (h : m.Keeps P)
    {key : String} {result : Except MappingError Destination} (absent : m.lookup? key = none)
    (good : ∀ d, result = .ok d → P d) : (m.remember key result).Keeps P := by
  intro other d found
  rcases lookup?_remember_cases absent found with before | ⟨-, now⟩
  · exact h other d before
  · exact good d now

namespace TableTree

variable {t : TableTree} {c : Catalog} {root : Table}

/-- Each joined table is joined by the relationship that its path crosses last. -/
def Grounded (t : TableTree) (c : Catalog) (root : Table) : Prop :=
  ∀ node ∈ t.joins, ∃ r, node.relationship = some r ∧ c.Crosses root node.path r

/-- The destination is located, and its columns are in a table of the tree. -/
structure Holds (t : TableTree) (c : Catalog) (root : Table) (d : Destination) : Prop where
  located : d.Located c root
  hasPath : t.hasPath d.tablePath = true

private theorem Grounded.addJoins (h : t.Grounded c root) {joins : List TableJoin}
    (crossed : ∀ j ∈ joins, c.Crosses root j.path j.relationship) :
    (t.addJoins joins).Grounded c root := by
  intro node member
  rcases of_mem_addJoins member with member | ⟨j, hj, attaches⟩
  · exact h node member
  · refine ⟨j.relationship, attaches.relationship, ?_⟩
    rw [attaches.path]
    exact crossed j hj

private theorem Grounded.column_mem (h : t.Grounded c root) {d : Destination}
    (held : t.Holds c root d) {column : Column} (member : column ∈ d.columns) :
    (d.tablePath = "" ∧ column ∈ root.columns) ∨
      ∃ node ∈ t.joins, node.path = d.tablePath ∧
        ∃ r, node.relationship = some r ∧ column ∈ r.target.columns := by
  obtain ⟨table, reached, columns⟩ := held.located.columns
  obtain ⟨node, hnode, path⟩ := List.mem_map.mp ((t.hasPath_iff _).mp held.hasPath)
  rcases List.mem_cons.mp hnode with rfl | joined
  · left
    have at_root : "" = d.tablePath := path
    rw [← at_root] at reached
    have same : table = root := reached.unique .start
    exact ⟨at_root.symm, same ▸ columns column member⟩
  · right
    obtain ⟨r, attached, crossed⟩ := h node joined
    have same : r.target = table := by
      rw [path] at crossed
      exact crossed.reaches.unique reached
    exact ⟨node, joined, path, r, attached, same ▸ columns column member⟩

end TableTree

def Request.StartsAt (c : Catalog) (root : Table) : Request → Prop
  | .object o _ parent => c.tableFor o = .ok root ∧ parent.getD "" = ""
  | .table t _ parent _ => t = root ∧ parent.getD "" = ""
  | .id o _ => c.tableFor o = .ok root

namespace Navigator

variable {n : Navigator} {c : Catalog} {root : Table}

/-- The joined tables and what is kept are where their paths lead from the root. -/
structure Grounded (n : Navigator) (c : Catalog) (root : Table) : Prop where
  catalog : n.catalog = c
  tree : n.tree.Grounded c root
  objectPaths : n.objectPaths.Keeps (n.tree.Holds c root)
  tablePaths : n.tablePaths.Keeps (n.tree.Holds c root)

structure GroundedAnswer (answer : Except MappingError Destination × Navigator) (c : Catalog)
    (root : Table) : Prop where
  navigator : answer.2.Grounded c root
  held : ∀ d, answer.1 = .ok d → answer.2.tree.Holds c root d

theorem grounded_start (c : Catalog) (root : Table) : (start c).Grounded c root := by
  have empty : Memo.Keeps {} ((start c).tree.Holds c root) := by
    intro key d found
    cases found
  exact ⟨rfl, List.forall_mem_nil _, empty, empty⟩

private theorem Grounded.addJoins (h : n.Grounded c root) {joins : List TableJoin}
    (crossed : ∀ j ∈ joins, c.Crosses root j.path j.relationship) :
    Grounded { n with tree := n.tree.addJoins joins } c root := by
  have grown : ∀ d, n.tree.Holds c root d → (n.tree.addJoins joins).Holds c root d := by
    intro d held
    exact ⟨held.located, TableTree.hasPath_addJoins.mpr (.inl held.hasPath)⟩
  exact ⟨h.catalog, h.tree.addJoins crossed, h.objectPaths.imp grown, h.tablePaths.imp grown⟩

private theorem Grounded.error (h : n.Grounded c root) (e : MappingError) :
    GroundedAnswer (.error e, n) c root := by
  refine ⟨h, ?_⟩
  intro d answered
  cases answered

private theorem Grounded.register (h : n.Grounded c root)
    {resolved : Except MappingError Resolution}
    (good : ∀ resolution, resolved = .ok resolution → resolution.Grounded c root) :
    GroundedAnswer (resolved.map (·.destination), n.register resolved) c root := by
  cases resolved with
  | error e => exact h.error e
  | ok resolution =>
    obtain ⟨located, joined, crossed⟩ := good resolution rfl
    refine ⟨h.addJoins crossed, ?_⟩
    intro d answered
    obtain rfl := Except.ok.inj answered
    refine ⟨located, TableTree.hasPath_addJoins.mpr ?_⟩
    rcases joined with at_root | behind
    · left
      rw [at_root]
      exact n.tree.hasPath_root
    · exact .inr behind

private theorem mem_of_idColumn {table : Table} {name path : String} {column : Column}
    (found : idColumn table name path = .ok column) : column ∈ table.columns :=
  List.mem_of_find?_eq_some (idColumn_eq_ok_iff.mp found)

private theorem exists_column_of_ownId {object : ObjectEntity} {name path : String}
    {d : Destination} (found : n.ownId object name path = .ok d) :
    ∃ table column, n.catalog.tableFor object = .ok table ∧ column ∈ table.columns ∧
      d = ⟨"", .id column⟩ := by
  obtain ⟨-, table, mapped, column, hit, rfl⟩ := ownId_eq_ok_iff.mp found
  exact ⟨table, column, mapped, List.mem_of_find?_eq_some hit, rfl⟩

section Requests

variable (linked : c.Linked) (rootKnown : root ∈ c.tables)
  (plain : ∀ table, ∀ r ∈ c.relationships table, Segment.IsPlain r.name)

include linked rootKnown

private theorem Grounded.tablePath (h : n.Grounded c root) (path : String) {parent : Option String}
    (base : parent.getD "" = "") (forced : Bool) :
    GroundedAnswer (n.tablePath root path parent forced) c root := by
  rcases n.tablePath_cases root path parent forced with ⟨kept, found, answer⟩ | ⟨absent, answer⟩
  · rw [answer]
    refine ⟨⟨h.catalog, h.tree, h.objectPaths, h.tablePaths⟩, ?_⟩
    intro d same
    exact h.tablePaths _ d (found.trans (congrArg some same))
  · rw [answer]
    have good : ∀ resolution, n.catalog.resolveTablePath root path (parent.getD "") forced =
        .ok resolution → resolution.Grounded c root := by
      intro resolution found
      rw [base, h.catalog] at found
      exact Catalog.grounded_of_resolveTablePath linked rootKnown found
    obtain ⟨⟨catalog, tree, objectPaths, tablePaths⟩, held⟩ := h.register good
    rw [register_tablePaths] at tablePaths
    exact ⟨⟨catalog, tree, objectPaths, tablePaths.remember absent held⟩, held⟩

include plain

theorem Grounded.objectPath (h : n.Grounded c root) {object : ObjectEntity}
    (mapped : c.tableFor object = .ok root) (path : String) {parent : Option String}
    (base : parent.getD "" = "") : GroundedAnswer (n.objectPath object path parent) c root := by
  rcases n.objectPath_cases object path parent with ⟨kept, found, answer⟩ | ⟨absent, answer⟩
  · rw [answer]
    refine ⟨⟨h.catalog, h.tree, h.objectPaths, h.tablePaths⟩, ?_⟩
    intro d same
    exact h.objectPaths _ d (found.trans (congrArg some same))
  · rw [answer]
    have good : ∀ resolution, n.catalog.resolveObjectPath object path (parent.getD "") =
        .ok resolution → resolution.Grounded c root := by
      intro resolution found
      rw [base, h.catalog] at found
      exact Catalog.grounded_of_resolveObjectPath linked rootKnown plain mapped found
    obtain ⟨⟨catalog, tree, objectPaths, tablePaths⟩, held⟩ := h.register good
    rw [register_objectPaths] at objectPaths
    exact ⟨⟨catalog, tree, objectPaths.remember absent held, tablePaths⟩, held⟩

theorem Grounded.idPath (h : n.Grounded c root) {object : ObjectEntity}
    (mapped : c.tableFor object = .ok root) (path : String) :
    GroundedAnswer (n.idPath object path) c root := by
  -- the last join puts the column into the tree, whether the front has joined its table or not
  have front : GroundedAnswer (n.objectPath object (Text.cutLastDot path).1 none) c root :=
    h.objectPath linked rootKnown plain mapped _ rfl
  rcases n.idPath_cases object path with ⟨-, answer⟩ | ⟨-, rest⟩
  · rw [answer]
    refine ⟨h, ?_⟩
    intro d found
    obtain ⟨table, column, hit, member, rfl⟩ := exists_column_of_ownId found
    rw [h.catalog, mapped] at hit
    obtain rfl := Except.ok.inj hit
    exact ⟨.id .start member, n.tree.hasPath_root⟩
  · rcases rest with ⟨e, -, answer⟩ | ⟨reached, -, -, answer⟩ | ⟨reached, r, led, last, answer⟩
    · rw [answer]
      exact front.navigator.error _
    · rw [answer]
      exact front.navigator.error _
    · rw [answer]
      have crossed := (front.held reached led).located.crosses r last
      have joined : ∀ j ∈ [lastJoin reached r (Text.cutLastDot path).1],
          c.Crosses root j.path j.relationship := by
        intro j member
        rw [List.mem_singleton.mp member]
        exact crossed
      refine ⟨front.navigator.addJoins joined, ?_⟩
      intro d found
      cases hit : idColumn r.target (Text.cutLastDot path).2 path with
      | error e =>
        rw [hit] at found
        cases found
      | ok column =>
        rw [hit] at found
        obtain rfl := Except.ok.inj found
        have member := mem_of_idColumn hit
        exact ⟨.id crossed.reaches member, TableTree.hasPath_addJoin.mpr (.inr rfl)⟩

private theorem Grounded.ask (h : n.Grounded c root) {q : Request} (starts : q.StartsAt c root) :
    GroundedAnswer (n.ask q) c root := by
  cases q with
  | object object path parent => exact h.objectPath linked rootKnown plain starts.1 path starts.2
  | table table path parent forced =>
    obtain ⟨rfl, base⟩ := starts
    exact h.tablePath linked rootKnown path base forced
  | id object path => exact h.idPath linked rootKnown plain starts path

theorem Grounded.askAll (h : n.Grounded c root) {requests : List Request}
    (starts : ∀ q ∈ requests, q.StartsAt c root) : (n.askAll requests).Grounded c root := by
  apply askAll_induction (P := fun n => n.Grounded c root) ?_ h
  intro n q member before
  exact (before.ask linked rootKnown plain (starts q member)).navigator

end Requests

/-- Each column that a request from the root was answered with is a column of the table that is
joined at its path, of the root if the path is empty; and so it stays. -/
theorem columns_in_tree {maps : List DataMap} {supply after : NameSupply}
    (compiled : Catalog.compile maps supply = (.ok c, after))
    (plain : ∀ table, ∀ r ∈ c.relationships table, Segment.IsPlain r.name)
    (rootKnown : root ∈ c.tables) (earlier later : List Request) (q : Request)
    (starts : ∀ p ∈ earlier ++ q :: later, p.StartsAt c root) {d : Destination}
    (answered : (((start c).askAll earlier).ask q).1 = .ok d) :
    let tree := ((start c).askAll (earlier ++ q :: later)).tree
    ∀ column ∈ d.columns,
      (d.tablePath = "" ∧ column ∈ root.columns) ∨
        ∃ node ∈ tree.joins, node.path = d.tablePath ∧
          ∃ r, node.relationship = some r ∧ column ∈ r.target.columns := by
  intro tree column member
  have linked := Catalog.linked_of_compile compiled
  obtain ⟨before, now⟩ := List.forall_mem_append.mp starts
  obtain ⟨first, behind⟩ := List.forall_mem_cons.mp now
  have start_grounded := (grounded_start c root).askAll linked rootKnown plain before
  have answer := start_grounded.ask linked rootKnown plain first
  have run : (start c).askAll (earlier ++ q :: later) =
      (((start c).askAll earlier).ask q).2.askAll later :=
    List.foldl_append
  have grounded := answer.navigator.askAll linked rootKnown plain behind
  have held := answer.held d answered
  -- the joins of later requests are added behind those that the answer needs
  have there : tree.hasPath d.tablePath = true := by
    change ((start c).askAll _).tree.hasPath _ = true
    rw [run]
    apply askAll_induction (P := fun n => n.tree.hasPath d.tablePath = true) ?_ held.hasPath
    intro n p _ before
    exact hasPath_ask before p
  rw [← run] at grounded
  exact grounded.tree.column_mem ⟨held.located, there⟩ member

open Gallery

theorem columns_in_tree_key :
    let earlier := [Request.object painting "toArtist" none]
    let q := Request.id painting "toArtist.ARTIST_ID"
    let later := [Request.table paintingTable "ARTIST_ID" none false]
    let d : Destination := ⟨"toArtist", .id (.key "ARTIST_ID")⟩
    (((start schema).askAll earlier).ask q).1 = .ok d ∧
      ((d.tablePath = "" ∧ .key "ARTIST_ID" ∈ paintingTable.columns) ∨
        ∃ node ∈ ((start schema).askAll (earlier ++ q :: later)).tree.joins,
          node.path = d.tablePath ∧
            ∃ r, node.relationship = some r ∧ .key "ARTIST_ID" ∈ r.target.columns) := by
  intro earlier q later d
  have linked := Catalog.linked_of_compile compile_map
  have plain : ∀ table, ∀ r ∈ schema.relationships table, Segment.IsPlain r.name :=
    linked.forall_relationships (by decide +kernel)
  have mapped : schema.tableFor painting = .ok paintingTable := rfl
  have starts : ∀ p ∈ earlier ++ q :: later, p.StartsAt schema paintingTable := by
    intro p member
    rcases List.mem_cons.mp member with rfl | member
    · exact ⟨mapped, rfl⟩
    · rcases List.mem_cons.mp member with rfl | member
      · exact mapped
      · rw [List.mem_singleton.mp member]
        exact ⟨rfl, rfl⟩
  have answered : (((start schema).askAll earlier).ask q).1 = .ok d := rfl
  exact ⟨answered, columns_in_tree compile_map plain (by decide +kernel) earlier later q starts
    answered _ List.mem_cons_self⟩

end Navigator

end ObjectRelational
