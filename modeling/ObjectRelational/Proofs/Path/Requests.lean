import ObjectRelational.Path.Navigator
import ObjectRelational.Proofs.Data.Except
import ObjectRelational.Proofs.Path.TableTree

set_option autoImplicit false
set_option relaxedAutoImplicit false

/-!
Requests to a navigator, and runs of them. Each way of following a path is taken apart once: it
hits the memory or resolves and remembers, and an id path is an object path with a last step.
-/

namespace ObjectRelational

/-- The ways of asking a navigator where a path leads. -/
inductive Request
  | object (object : ObjectEntity) (path : String) (parent : Option String)
  | table (table : Table) (path : String) (parent : Option String) (forced : Bool)
  | id (object : ObjectEntity) (path : String)
  deriving Repr, DecidableEq

namespace Navigator

def start (c : Catalog) : Navigator := { catalog := c }

def ask (n : Navigator) : Request → Except MappingError Destination × Navigator
  | .object object path parent => n.objectPath object path parent
  | .table table path parent forced => n.tablePath table path parent forced
  | .id object path => n.idPath object path

section Ask

variable (n : Navigator) (object : ObjectEntity) (table : Table) (path : String)
  (parent : Option String) (forced : Bool)

private theorem ask_object :
    n.ask (.object object path parent) = n.objectPath object path parent := rfl

theorem ask_table :
    n.ask (.table table path parent forced) = n.tablePath table path parent forced := rfl

theorem ask_id : n.ask (.id object path) = n.idPath object path := rfl

end Ask

def askAll (n : Navigator) (requests : List Request) : Navigator :=
  requests.foldl (fun n q => (n.ask q).2) n

theorem askAll_cons (n : Navigator) (q : Request) (requests : List Request) :
    n.askAll (q :: requests) = (n.ask q).2.askAll requests := rfl

theorem askAll_append (n : Navigator) (requests more : List Request) :
    n.askAll (requests ++ more) = (n.askAll requests).askAll more := List.foldl_append

theorem askAll_induction {P : Navigator → Prop} {requests : List Request}
    (step : ∀ n, ∀ q ∈ requests, P n → P (n.ask q).2) {n : Navigator} (first : P n) :
    P (n.askAll requests) := by
  induction requests generalizing n with
  | nil => exact first
  | cons q requests ih =>
    apply ih
    · intro n q member
      exact step n q (List.mem_cons_of_mem _ member)
    · exact step n q List.mem_cons_self first

theorem objectPath_cases (n : Navigator) (object : ObjectEntity) (path : String)
    (parent : Option String) :
    let key := memoKey parent object.name path
    let resolved := n.catalog.resolveObjectPath object path (parent.getD "")
    let result := resolved.map (·.destination)
    (∃ kept, n.objectPaths.lookup? key = some kept ∧
      n.objectPath object path parent = (kept, { n with objectPaths := n.objectPaths.countHit })) ∨
    (n.objectPaths.lookup? key = none ∧
      n.objectPath object path parent = (result,
        { n.register resolved with objectPaths := n.objectPaths.remember key result })) := by
  intro key resolved result
  cases found : n.objectPaths.lookup? key with
  | some kept =>
    left
    refine ⟨kept, rfl, ?_⟩
    simp only [objectPath, found, key]
  | none =>
    right
    refine ⟨rfl, ?_⟩
    simp only [objectPath, found, key, resolved, result]

theorem tablePath_cases (n : Navigator) (table : Table) (path : String)
    (parent : Option String) (forced : Bool) :
    let key := memoKey parent table.name path
    let resolved := n.catalog.resolveTablePath table path (parent.getD "") forced
    let result := resolved.map (·.destination)
    (∃ kept, n.tablePaths.lookup? key = some kept ∧
      n.tablePath table path parent forced =
        (kept, { n with tablePaths := n.tablePaths.countHit })) ∨
    (n.tablePaths.lookup? key = none ∧
      n.tablePath table path parent forced =
        (result, { n.register resolved with tablePaths := n.tablePaths.remember key result })) := by
  intro key resolved result
  cases found : n.tablePaths.lookup? key with
  | some kept =>
    left
    refine ⟨kept, rfl, ?_⟩
    simp only [tablePath, found, key]
  | none =>
    right
    refine ⟨rfl, ?_⟩
    simp only [tablePath, found, key, resolved, result]

/-- The join that an id path adds behind the relationship it goes through. -/
def lastJoin (reached : Destination) (r : Relationship) (front : String) : TableJoin :=
  ⟨reached.finalPath, r, .ofOuter (endsOuter front)⟩

theorem idColumn_eq_ok_iff {table : Table} {name path : String} {column : Column} :
    idColumn table name path = .ok column ↔ table.column? name = some column := by
  unfold idColumn
  cases table.column? name with
  | none => exact ⟨nofun, nofun⟩
  | some found => simp

theorem ownId_eq_ok_iff {n : Navigator} {object : ObjectEntity} {name path : String}
    {d : Destination} :
    n.ownId object name path = .ok d ↔
      name ≠ "" ∧ ∃ table, n.catalog.tableFor object = .ok table ∧
        ∃ column, table.column? name = some column ∧ ⟨"", .id column⟩ = d := by
  unfold ownId
  cases empty : name.isEmpty with
  | true => simp [String.isEmpty_iff.mp empty, bind, Except.bind, throw, throwThe,
      MonadExceptOf.throw]
  | false =>
    have named : name ≠ "" := by simpa [String.isEmpty_iff] using empty
    simp [bind_eq_ok_iff, idColumn_eq_ok_iff, pure, Except.pure, named]

/-- An id path names a column of the own table, or it goes on where the object path in front of
the name has ended. -/
theorem idPath_cases (n : Navigator) (object : ObjectEntity) (path : String) :
    let front := (Text.cutLastDot path).1
    let name := (Text.cutLastDot path).2
    let after := n.objectPath object front none
    (front = "" ∧ n.idPath object path = (n.ownId object name path, n)) ∨
    front ≠ "" ∧
      ((∃ e, after.1 = .error e ∧ n.idPath object path = (.error e, after.2)) ∨
      (∃ reached, after.1 = .ok reached ∧ reached.relationship? = none ∧
        n.idPath object path = (.error (.idPathWithoutRelationship path front), after.2)) ∨
      ∃ reached r, after.1 = .ok reached ∧ reached.relationship? = some r ∧
        n.idPath object path =
          ((idColumn r.target name path).map fun column => ⟨reached.finalPath, .id column⟩,
            (after.2.addJoin (lastJoin reached r front)).2)) := by
  intro front name after
  by_cases own : front = ""
  · left
    refine ⟨own, ?_⟩
    simp only [idPath, String.isEmpty_iff.mpr own, front, name, if_true]
  · right
    refine ⟨own, ?_⟩
    have through : front.isEmpty = false := by simpa [String.isEmpty_iff] using own
    rcases reached : after with ⟨e | destination, m⟩
    · left
      refine ⟨e, rfl, ?_⟩
      simp only [idPath, through, reached, front, after, Bool.false_eq_true, if_false]
    · right
      cases last : destination.relationship? with
      | none =>
        left
        refine ⟨destination, rfl, last, ?_⟩
        simp only [idPath, through, reached, front, after, last, Bool.false_eq_true, if_false]
      | some r =>
        right
        refine ⟨destination, r, rfl, last, ?_⟩
        simp only [idPath, through, reached, front, name, after, last, lastJoin,
          Bool.false_eq_true, if_false]

theorem register_catalog (n : Navigator) (resolved : Except MappingError Resolution) :
    (n.register resolved).catalog = n.catalog := by
  cases resolved <;> rfl

theorem register_objectPaths (n : Navigator) (resolved : Except MappingError Resolution) :
    (n.register resolved).objectPaths = n.objectPaths := by
  cases resolved <;> rfl

theorem register_tablePaths (n : Navigator) (resolved : Except MappingError Resolution) :
    (n.register resolved).tablePaths = n.tablePaths := by
  cases resolved <;> rfl

theorem hasPath_register {n : Navigator} {resolved : Except MappingError Resolution}
    {path : String} :
    (n.register resolved).tree.hasPath path = true ↔
      n.tree.hasPath path = true ∨
        ∃ resolution, resolved = .ok resolution ∧ ∃ j ∈ resolution.joins, j.path = path := by
  cases resolved with
  | error e => simp [register]
  | ok resolution =>
    rw [register, TableTree.hasPath_addJoins]
    simp

private theorem register_tree_of_error {n : Navigator} {resolved : Except MappingError Resolution}
    {e : MappingError} (failed : resolved.map (·.destination) = .error e) :
    (n.register resolved).tree = n.tree := by
  cases resolved with
  | error _ => rfl
  | ok _ => cases failed

private theorem objectPath_tree_of_error {n : Navigator} {object : ObjectEntity} {path : String}
    {parent : Option String} {e : MappingError}
    (failed : (n.objectPath object path parent).1 = .error e) :
    (n.objectPath object path parent).2.tree = n.tree := by
  rcases n.objectPath_cases object path parent with ⟨kept, -, answer⟩ | ⟨-, answer⟩
  · rw [answer]
  · rw [answer] at failed ⊢
    exact register_tree_of_error failed

private theorem tablePath_tree_of_error {n : Navigator} {table : Table} {path : String}
    {parent : Option String} {forced : Bool} {e : MappingError}
    (failed : (n.tablePath table path parent forced).1 = .error e) :
    (n.tablePath table path parent forced).2.tree = n.tree := by
  rcases n.tablePath_cases table path parent forced with ⟨kept, -, answer⟩ | ⟨-, answer⟩
  · rw [answer]
  · rw [answer] at failed ⊢
    exact register_tree_of_error failed

section Start

variable (c : Catalog) (object : ObjectEntity) (table : Table) (path : String)
  (parent : Option String) (forced : Bool)

theorem objectPath_start_fst : ((start c).objectPath object path parent).1 =
    (c.resolveObjectPath object path (parent.getD "")).map (·.destination) := rfl

theorem objectPath_start_tree : ((start c).objectPath object path parent).2.tree =
    ((start c).register (c.resolveObjectPath object path (parent.getD ""))).tree := rfl

theorem tablePath_start_fst : ((start c).tablePath table path parent forced).1 =
    (c.resolveTablePath table path (parent.getD "") forced).map (·.destination) := rfl

theorem tablePath_start_tree : ((start c).tablePath table path parent forced).2.tree =
    ((start c).register (c.resolveTablePath table path (parent.getD "") forced)).tree := rfl

end Start

private theorem hasPath_objectPath {n : Navigator} {path : String}
    (there : n.tree.hasPath path = true) (object : ObjectEntity) (asked : String)
    (parent : Option String) :
    (n.objectPath object asked parent).2.tree.hasPath path = true := by
  rcases n.objectPath_cases object asked parent with ⟨kept, -, answer⟩ | ⟨-, answer⟩
  · rw [answer]
    exact there
  · rw [answer]
    exact hasPath_register.mpr (.inl there)

private theorem hasPath_tablePath {n : Navigator} {path : String}
    (there : n.tree.hasPath path = true) (table : Table) (asked : String) (parent : Option String)
    (forced : Bool) :
    (n.tablePath table asked parent forced).2.tree.hasPath path = true := by
  rcases n.tablePath_cases table asked parent forced with ⟨kept, -, answer⟩ | ⟨-, answer⟩
  · rw [answer]
    exact there
  · rw [answer]
    exact hasPath_register.mpr (.inl there)

theorem hasPath_ask {n : Navigator} {path : String} (there : n.tree.hasPath path = true)
    (q : Request) : (n.ask q).2.tree.hasPath path = true := by
  cases q with
  | object object asked parent => exact hasPath_objectPath there object asked parent
  | table table asked parent forced => exact hasPath_tablePath there table asked parent forced
  | id object asked =>
    rw [ask_id]
    have front := hasPath_objectPath there object (Text.cutLastDot asked).1 none
    rcases n.idPath_cases object asked with ⟨-, answer⟩ | ⟨-, rest⟩
    · rw [answer]
      exact there
    · rcases rest with ⟨e, -, answer⟩ | ⟨reached, -, -, answer⟩ | ⟨reached, r, -, -, answer⟩
      · rw [answer]
        exact front
      · rw [answer]
        exact front
      · rw [answer]
        exact TableTree.hasPath_addJoin.mpr (.inl front)

/-- A request that fails leaves the tree as it was, unless it is an id path and what stands in
front of its last dot leads somewhere: then the joins of the front stay, and so does the last join
if the front ends on a relationship. -/
theorem failed_ask_tree (n : Navigator) (q : Request) {e : MappingError}
    (failed : (n.ask q).1 = .error e) :
    (n.ask q).2.tree = n.tree ∨
      ∃ object path reached, q = .id object path ∧ (Text.cutLastDot path).1 ≠ "" ∧
        (n.objectPath object (Text.cutLastDot path).1 none).1 = .ok reached ∧
        ((reached.relationship? = none ∧
            (n.ask q).2.tree = (n.objectPath object (Text.cutLastDot path).1 none).2.tree) ∨
          ∃ r, reached.relationship? = some r ∧
            (n.ask q).2.tree =
              ((n.objectPath object (Text.cutLastDot path).1 none).2.tree.addJoin
                (lastJoin reached r (Text.cutLastDot path).1)).2) := by
  cases q with
  | object object path parent =>
    rw [ask_object] at failed ⊢
    exact .inl (objectPath_tree_of_error failed)
  | table table path parent forced =>
    rw [ask_table] at failed ⊢
    exact .inl (tablePath_tree_of_error failed)
  | id object path =>
    rw [ask_id] at failed ⊢
    rcases n.idPath_cases object path with ⟨-, answer⟩ | ⟨through, ⟨e', front, answer⟩ | rest⟩
    · left
      rw [answer]
    · left
      rw [answer]
      exact objectPath_tree_of_error front
    · right
      rcases rest with ⟨reached, front, last, answer⟩ | ⟨reached, r, front, last, answer⟩
      · refine ⟨object, path, reached, rfl, through, front, .inl ⟨last, ?_⟩⟩
        rw [answer]
      · refine ⟨object, path, reached, rfl, through, front, .inr ⟨r, last, ?_⟩⟩
        rw [answer]
        rfl

end Navigator

namespace Gallery

def artist : ObjectEntity where
  name := "Artist"
  table := "ARTIST"
  attributes := [⟨"artistName", "ARTIST_NAME"⟩]
  relationships := [⟨"paintings", "Painting", "paintingArray"⟩]

def painting : ObjectEntity where
  name := "Painting"
  table := "PAINTING"
  attributes := [⟨"artistName", "toArtist.ARTIST_NAME"⟩]
  relationships := [⟨"toArtist", "Artist", "toArtist"⟩]

def artistTable : Table where
  name := "ARTIST"
  columns := [.key "ARTIST_ID", { name := "ARTIST_NAME" }]

def paintingTable : Table where
  name := "PAINTING"
  columns := [.key "PAINTING_ID", { name := "ARTIST_ID" }]

def map : DataMap where
  name := "gallery"
  tables := [artistTable, paintingTable]
  objects := [artist, painting]
  joins :=
    [{ condition := .single ⟨"ARTIST_ID", "ARTIST_ID"⟩
       entities := ⟨"PAINTING", "ARTIST"⟩
       names := ⟨some "toArtist", some "paintingArray"⟩
       cardinality := .manyToOne }]

def schema : Catalog :=
  match Catalog.compile [map] {} with
  | (.ok c, _) => c
  | (.error _, _) => ⟨[], [], [], []⟩

theorem compile_map : Catalog.compile [map] {} = (.ok schema, {}) := rfl

end Gallery

namespace Navigator

open Gallery

theorem failed_ask_tree_key :
    let n := start schema
    let q := Request.id painting "toArtist.NOPE"
    (n.ask q).1 = .error (.noSuchKey "toArtist.NOPE") ∧
      ((n.ask q).2.tree = n.tree ∨ ∃ object path reached, q = .id object path ∧
        (n.objectPath object (Text.cutLastDot path).1 none).1 = .ok reached) := by
  intro n q
  have failed : (n.ask q).1 = .error (.noSuchKey "toArtist.NOPE") := rfl
  refine ⟨failed, ?_⟩
  rcases failed_ask_tree n q failed with same | ⟨object, path, reached, request, -, front, -⟩
  · exact .inl same
  · exact .inr ⟨object, path, reached, request, front⟩

/-- A request that fails can leave a join in the tree. -/
theorem failed_ask_adds_join :
    ∃ e, ((start schema).ask (.id painting "toArtist.NOPE")).1 = .error e ∧
      ((start schema).ask (.id painting "toArtist.NOPE")).2.tree ≠ (start schema).tree := by
  refine ⟨.noSuchKey "toArtist.NOPE", rfl, ?_⟩
  decide +kernel

end Navigator

end ObjectRelational
