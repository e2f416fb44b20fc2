import ObjectRelational.Proofs.Catalog.Linked
import ObjectRelational.Proofs.Path.Requests
import ObjectRelational.Proofs.Text.Dotted

set_option autoImplicit false
set_option relaxedAutoImplicit false

/-!
What a navigator recalls. Under each key it keeps the outcome of the first look-up, whose joins
are in the tree. So a look-up ends as it would on a navigator of its own, as long as no other
look-up went before it under the same key.
-/

namespace ObjectRelational

namespace Memo

variable {α : Type} {key : α → String} {outcome : α → Except MappingError Destination}
  {m : Memo} {asked : List α}

/-- Each key that was asked for is kept with the outcome of its first look-up. -/
def Recalls (m : Memo) (key : α → String) (outcome : α → Except MappingError Destination)
    (asked : List α) : Prop :=
  ∀ k, m.lookup? k = (asked.find? (key · == k)).map outcome

theorem recalls_nil : Memo.Recalls {} key outcome [] := fun _ => rfl

private theorem find?_append_singleton (a : α) (k : String) :
    (asked ++ [a]).find? (key · == k) =
      (asked.find? (key · == k)).or (if key a = k then some a else none) := by
  rw [List.find?_append, List.find?_singleton]
  simp only [beq_iff_eq]

private theorem first_of_append_singleton {a first : α} {k : String}
    (found : (asked ++ [a]).find? (key · == k) = some first) :
    asked.find? (key · == k) = some first ∨
      (asked.find? (key · == k) = none ∧ key a = k ∧ a = first) := by
  rw [find?_append_singleton] at found
  rcases Option.or_eq_some_iff.mp found with before | ⟨none_before, now⟩
  · exact .inl before
  · split at now
    · rename_i same
      exact .inr ⟨none_before, same, Option.some.inj now⟩
    · cases now

theorem Recalls.countHit (h : m.Recalls key outcome asked) {a : α}
    {kept : Except MappingError Destination} (found : m.lookup? (key a) = some kept) :
    m.countHit.Recalls key outcome (asked ++ [a]) := by
  intro k
  change m.lookup? k = _
  rw [find?_append_singleton, h k]
  by_cases same : key a = k
  · subst same
    rw [h (key a)] at found
    obtain ⟨first, earlier, -⟩ := Option.map_eq_some_iff.mp found
    rw [earlier, Option.some_or]
  · rw [if_neg same, Option.or_none]

theorem Recalls.remember (h : m.Recalls key outcome asked) {a : α}
    (absent : m.lookup? (key a) = none) :
    (m.remember (key a) (outcome a)).Recalls key outcome (asked ++ [a]) := by
  intro k
  rw [find?_append_singleton]
  by_cases same : key a = k
  · subst same
    have first : asked.find? (key · == key a) = none := by
      have kept := h (key a)
      rw [absent] at kept
      exact Option.map_eq_none_iff.mp kept.symm
    rw [lookup?_remember_self m _ _ absent, first, if_pos rfl]
    rfl
  · rw [if_neg same, Option.or_none, ← h k]
    exact lookup?_remember_of_ne m _ (Ne.symm same)

end Memo

structure ObjectLookup where
  object : ObjectEntity
  path : String
  parent : Option String
  deriving Repr, DecidableEq

namespace ObjectLookup

def key (l : ObjectLookup) : String := Navigator.memoKey l.parent l.object.name l.path

/-- What the look-up asks for: the parts of its key, marked off from each other. -/
def parts (l : ObjectLookup) : String × String × String :=
  (l.parent.getD "", l.object.name, l.path)

theorem parts_eq_of_key_eq {l m : ObjectLookup} (same : l.key = m.key)
    (depth : (Text.dotted (l.parent.getD "")).length = (Text.dotted (m.parent.getD "")).length)
    (plain : Text.hasDot l.object.name = false) (plain' : Text.hasDot m.object.name = false) :
    l.parts = m.parts := by
  have split : ∀ {k : ObjectLookup}, Text.hasDot k.object.name = false →
      Text.dotted k.key =
        Text.dotted (k.parent.getD "") ++ (k.object.name :: Text.dotted k.path) := by
    intro k undotted
    rw [key, Navigator.memoKey, Text.dotted_append_dot, Text.dotted_append_dot,
      Text.dotted_of_hasDot_eq_false undotted, List.append_assoc]
    rfl
  have whole := congrArg Text.dotted same
  rw [split plain, split plain'] at whole
  obtain ⟨parents, rest⟩ := List.append_inj whole depth
  obtain ⟨names, paths⟩ := List.cons.inj rest
  rw [parts, parts, names, ← Text.undotted_dotted (l.parent.getD ""), parents,
    Text.undotted_dotted, ← Text.undotted_dotted l.path, paths, Text.undotted_dotted]

end ObjectLookup

def Request.lookup? : Request → Option ObjectLookup
  | .object o path parent => some ⟨o, path, parent⟩
  | .table .. => none
  | .id o path =>
    let front := (Text.cutLastDot path).1
    if front.isEmpty then none else some ⟨o, front, none⟩

namespace Catalog

def resolve (c : Catalog) (l : ObjectLookup) : Except MappingError Resolution :=
  c.resolveObjectPath l.object l.path (l.parent.getD "")

def outcome (c : Catalog) (l : ObjectLookup) : Except MappingError Destination :=
  (c.resolve l).map (·.destination)

private theorem Linked.resolve_eq_of_parts {c : Catalog} (h : c.Linked) {l m : ObjectLookup}
    (hl : l.object ∈ c.objects) (hm : m.object ∈ c.objects) (same : l.parts = m.parts) :
    c.resolve l = c.resolve m := by
  obtain ⟨parents, rest⟩ := Prod.mk.inj same
  obtain ⟨names, paths⟩ := Prod.mk.inj rest
  rw [resolve, resolve, h.object_eq_of_name hl hm names, paths, parents]

/-- If no different look-up shares its key, the first one under the key leads as far. -/
theorem Linked.resolve_first {c : Catalog} (h : c.Linked) {asked : List ObjectLookup}
    {next : ObjectLookup} (known : ∀ l ∈ asked, l.object ∈ c.objects)
    (nextKnown : next.object ∈ c.objects)
    (unconfused : ∀ l ∈ asked, l.key = next.key → l.parts = next.parts) :
    c.resolve ((asked.find? (ObjectLookup.key · == next.key)).getD next) = c.resolve next := by
  cases first : asked.find? (ObjectLookup.key · == next.key) with
  | none => rfl
  | some l =>
    have member := List.mem_of_find?_eq_some first
    have same : l.key = next.key := by simpa using List.find?_some first
    exact h.resolve_eq_of_parts (known l member) nextKnown (unconfused l member same)

end Catalog

namespace Navigator

/-- After these look-ups, the outcome of the first under each key is kept and its joins are in the
tree. -/
structure Recalling (n : Navigator) (c : Catalog) (asked : List ObjectLookup) : Prop where
  catalog : n.catalog = c
  recalls : n.objectPaths.Recalls ObjectLookup.key c.outcome asked
  joined : ∀ k l, asked.find? (ObjectLookup.key · == k) = some l → ∀ resolution,
    c.resolve l = .ok resolution → ∀ j ∈ resolution.joins, n.tree.hasPath j.path = true

theorem recalling_start (c : Catalog) : (start c).Recalling c [] :=
  ⟨rfl, Memo.recalls_nil, nofun⟩

variable {n : Navigator} {c : Catalog} {asked : List ObjectLookup}

private theorem Recalling.grow (h : n.Recalling c asked) {m : Navigator}
    (catalog : m.catalog = n.catalog) (kept : m.objectPaths = n.objectPaths)
    (grown : ∀ path, n.tree.hasPath path = true → m.tree.hasPath path = true) :
    m.Recalling c asked := by
  refine ⟨catalog.trans h.catalog, kept ▸ h.recalls, ?_⟩
  intro k l first resolution resolved j member
  exact grown _ (h.joined k l first resolution resolved j member)

private theorem Recalling.objectPath (h : n.Recalling c asked) (l : ObjectLookup) :
    (n.objectPath l.object l.path l.parent).2.Recalling c (asked ++ [l]) := by
  obtain ⟨rfl, recalls, joined⟩ := h
  rcases n.objectPath_cases l.object l.path l.parent with ⟨kept, found, answer⟩ | ⟨absent, answer⟩
  · rw [answer]
    refine ⟨rfl, recalls.countHit found, ?_⟩
    -- a hit is not the first look-up of its key, so no joins are owed for it
    intro k first hfirst
    obtain ⟨earlier, hearlier, -⟩ := Option.map_eq_some_iff.mp ((recalls l.key).symm.trans found)
    rcases Memo.first_of_append_singleton hfirst with before | ⟨none_before, rfl, -⟩
    · exact joined k first before
    · rw [hearlier] at none_before
      cases none_before
  · rw [answer]
    refine ⟨n.register_catalog _, recalls.remember absent, ?_⟩
    intro k first hfirst resolution resolved j member
    refine hasPath_register.mpr ?_
    rcases Memo.first_of_append_singleton hfirst with before | ⟨-, -, rfl⟩
    · exact .inl (joined k first before resolution resolved j member)
    · exact .inr ⟨resolution, resolved, j, member, rfl⟩

private theorem Recalling.ask (h : n.Recalling c asked) (q : Request) :
    (n.ask q).2.Recalling c (asked ++ q.lookup?.toList) := by
  cases q with
  | object object path parent => exact h.objectPath ⟨object, path, parent⟩
  | table table path parent forced =>
    rw [ask_table, Request.lookup?, Option.toList_none, List.append_nil]
    rcases n.tablePath_cases table path parent forced with ⟨kept, -, answer⟩ | ⟨-, answer⟩
    · rw [answer]
      exact h.grow rfl rfl fun _ there => there
    · rw [answer]
      refine h.grow (n.register_catalog _) ?_ fun _ there => hasPath_register.mpr (.inl there)
      exact n.register_objectPaths _
  | id object path =>
    rw [ask_id]
    have front := h.objectPath ⟨object, (Text.cutLastDot path).1, none⟩
    rcases n.idPath_cases object path with ⟨own, answer⟩ | ⟨through, rest⟩
    · rw [answer, Request.lookup?, if_pos (String.isEmpty_iff.mpr own), Option.toList_none,
        List.append_nil]
      exact h
    · rw [Request.lookup?, if_neg (mt String.isEmpty_iff.mp through), Option.toList_some]
      rcases rest with ⟨e, -, answer⟩ | ⟨reached, -, -, answer⟩ | ⟨reached, r, -, -, answer⟩
      · rw [answer]
        exact front
      · rw [answer]
        exact front
      · rw [answer]
        exact front.grow rfl rfl fun _ there => TableTree.hasPath_addJoin.mpr (.inl there)

theorem Recalling.askAll (h : n.Recalling c asked) (requests : List Request) :
    (n.askAll requests).Recalling c (asked ++ requests.filterMap Request.lookup?) := by
  induction requests generalizing n asked with
  | nil =>
    rw [List.filterMap_nil, List.append_nil]
    exact h
  | cons q requests ih =>
    have run := ih (h.ask q)
    rw [List.append_assoc] at run
    have first : (q :: requests).filterMap Request.lookup? =
        q.lookup?.toList ++ requests.filterMap Request.lookup? := by
      cases found : q.lookup? <;> simp [found]
    rw [first]
    exact run

/-- A look-up is answered as the first one under its key. -/
theorem Recalling.objectPath_fst (h : n.Recalling c asked) (l : ObjectLookup) :
    (n.objectPath l.object l.path l.parent).1 =
      c.outcome ((asked.find? (ObjectLookup.key · == l.key)).getD l) := by
  obtain ⟨rfl, recalls, -⟩ := h
  rcases n.objectPath_cases l.object l.path l.parent with ⟨kept, found, answer⟩ | ⟨absent, answer⟩
  · rw [answer]
    obtain ⟨first, earlier, rfl⟩ :=
      Option.map_eq_some_iff.mp ((recalls l.key).symm.trans found)
    rw [earlier]
    rfl
  · rw [answer]
    have first := Option.map_eq_none_iff.mp ((recalls l.key).symm.trans absent)
    rw [first]
    rfl

private theorem exists_join_of_objectPath_start {l : ObjectLookup} {node : TableNode}
    (member : node ∈ ((start c).objectPath l.object l.path l.parent).2.tree.joins) :
    ∃ resolution, c.resolve l = .ok resolution ∧ ∃ j ∈ resolution.joins, node.path = j.path := by
  change node ∈ ((start c).register (c.resolve l)).tree.joins at member
  cases resolved : c.resolve l with
  | error e =>
    rw [resolved] at member
    cases member
  | ok resolution =>
    rw [resolved] at member
    rcases TableTree.of_mem_addJoins member with before | ⟨j, hj, attaches⟩
    · cases before
    · exact ⟨resolution, rfl, j, hj, attaches.path⟩

/-- A look-up that shares its key with no different one before it ends as on a navigator of its
own, and the tables that are joined there are joined here. -/
theorem objectPath_as_on_start {maps : List DataMap} {supply after : NameSupply} {c : Catalog}
    (compiled : Catalog.compile maps supply = (.ok c, after)) (history : List Request)
    (known : ∀ l ∈ history.filterMap Request.lookup?, l.object ∈ c.objects) (next : ObjectLookup)
    (nextKnown : next.object ∈ c.objects)
    (unconfused : ∀ l ∈ history.filterMap Request.lookup?, l.key = next.key →
      l.parts = next.parts) :
    let fresh := (start c).objectPath next.object next.path next.parent
    let now := ((start c).askAll history).objectPath next.object next.path next.parent
    now.1 = fresh.1 ∧ ∀ node ∈ fresh.2.tree.joins, now.2.tree.hasPath node.path = true := by
  intro fresh now
  have before := (recalling_start c).askAll history
  rw [List.nil_append] at before
  have linked := Catalog.linked_of_compile compiled
  have first_resolves := linked.resolve_first known nextKnown unconfused
  constructor
  · calc now.1 = c.outcome _ := before.objectPath_fst next
      _ = c.outcome next := congrArg (·.map (·.destination)) first_resolves
      _ = fresh.1 := ((recalling_start c).objectPath_fst next).symm
  · intro node member
    obtain ⟨resolution, resolved, j, hj, path⟩ := exists_join_of_objectPath_start member
    have first : (history.filterMap Request.lookup? ++ [next]).find?
        (ObjectLookup.key · == next.key) =
          some (((history.filterMap Request.lookup?).find?
            (ObjectLookup.key · == next.key)).getD next) := by
      rw [Memo.find?_append_singleton, if_pos rfl]
      exact Option.or_some
    rw [path]
    exact (before.objectPath next).joined _ _ first resolution (first_resolves.trans resolved) j hj

open Gallery

theorem objectPath_as_on_start_again :
    let history := [Request.object painting "toArtist.artistName" none,
      .object artist "artistName" none, .id painting "toArtist.ARTIST_ID"]
    let next : ObjectLookup := ⟨painting, "toArtist", none⟩
    let fresh := (start schema).objectPath next.object next.path next.parent
    let now := ((start schema).askAll history).objectPath next.object next.path next.parent
    now.1 = fresh.1 ∧ ∀ node ∈ fresh.2.tree.joins, now.2.tree.hasPath node.path = true := by
  intro history next
  have known : ∀ l ∈ history.filterMap Request.lookup?, l.object ∈ schema.objects := by
    decide +kernel
  have plain : ∀ l ∈ history.filterMap Request.lookup?, l.parent = none ∧
      Text.hasDot l.object.name = false := by
    decide +kernel
  refine objectPath_as_on_start compile_map history known next (by decide +kernel) ?_
  intro l member same
  refine ObjectLookup.parts_eq_of_key_eq same ?_ (plain l member).2 (by decide +kernel)
  rw [(plain l member).1]

/-- Two look-ups under one key: on a navigator of its own the second leads to a column, and behind
the first it fails like that one. -/
theorem objectPath_confused :
    let first : ObjectLookup := ⟨artist, "Artist.artistName", some "owner"⟩
    let next : ObjectLookup := ⟨artist, "artistName", some "owner.Artist"⟩
    let history := [Request.object first.object first.path first.parent]
    let fresh := (start schema).objectPath next.object next.path next.parent
    let now := ((start schema).askAll history).objectPath next.object next.path next.parent
    (∀ l ∈ history.filterMap Request.lookup?, l.object ∈ schema.objects) ∧
      next.object ∈ schema.objects ∧
      fresh.1.toOption =
        some ⟨"owner.Artist.ARTIST_NAME", .attribute { name := "ARTIST_NAME" }⟩ ∧
      now.1.toOption = none := by
  decide +kernel

end Navigator

end ObjectRelational
