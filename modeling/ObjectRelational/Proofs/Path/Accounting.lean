import Mathlib.Data.List.Dedup
import ObjectRelational.Proofs.Data.List
import ObjectRelational.Proofs.Path.LookUp

set_option autoImplicit false
set_option relaxedAutoImplicit false

/-!
What the memories and the tree of a navigator owe to a run of requests. A memory counts one miss
for each key and a hit for every other look-up. Only the first look-up of a key is resolved, and
the tree is what its joins and the last joins of id paths make of it, in the order of the requests.
-/

namespace ObjectRelational

namespace Memo

variable {m : Memo} {keys : List String}

/-- The memory was asked for these keys, in order. -/
structure Counts (m : Memo) (keys : List String) : Prop where
  distinct : (m.entries.map (·.1)).Nodup
  mem : ∀ key, key ∈ m.entries.map (·.1) ↔ key ∈ keys
  misses : m.misses = .ofNat m.entries.length
  lookups : m.hits + m.misses = .ofNat keys.length

private theorem counts_nil : Counts {} [] :=
  ⟨List.nodup_nil, fun _ => Iff.rfl, rfl, rfl⟩

private theorem lookup?_eq_none_iff {key : String} :
    m.lookup? key = none ↔ key ∉ m.entries.map (·.1) := by
  rw [lookup?, Option.map_eq_none_iff, List.find?_eq_none, List.mem_map]
  simp only [beq_iff_eq, not_exists, not_and]

private theorem Counts.countHit (h : m.Counts keys) {key : String}
    {kept : Except MappingError Destination} (found : m.lookup? key = some kept) :
    m.countHit.Counts (keys ++ [key]) := by
  have known : key ∈ keys := by
    rw [← h.mem]
    by_contra unknown
    rw [lookup?_eq_none_iff.mpr unknown] at found
    cases found
  refine ⟨h.distinct, fun other => ?_, h.misses, ?_⟩
  · rw [List.mem_append, List.mem_singleton, or_iff_left_of_imp (by rintro rfl; exact known)]
    exact h.mem other
  · change m.hits + 1 + m.misses = _
    rw [List.length_append, List.length_singleton, UInt64.ofNat_add, ← h.lookups,
      UInt64.add_assoc, UInt64.add_comm 1, ← UInt64.add_assoc]
    rfl

private theorem Counts.remember (h : m.Counts keys) {key : String}
    (absent : m.lookup? key = none) (result : Except MappingError Destination) :
    (m.remember key result).Counts (keys ++ [key]) := by
  have new := lookup?_eq_none_iff.mp absent
  refine ⟨?_, fun other => ?_, ?_, ?_⟩
  · rw [Memo.remember, List.map_append, List.map_singleton, ← List.concat_eq_append]
    exact h.distinct.concat new
  · rw [Memo.remember, List.map_append, List.mem_append, List.mem_append, h.mem]
    rfl
  · change m.misses + 1 = .ofNat (m.entries ++ [(key, result)]).length
    rw [List.length_append, List.length_singleton, UInt64.ofNat_add, ← h.misses]
    rfl
  · change m.hits + (m.misses + 1) = _
    rw [List.length_append, List.length_singleton, UInt64.ofNat_add, ← h.lookups,
      UInt64.add_assoc]
    rfl

private theorem Counts.size_eq (h : m.Counts keys) : m.entries.length = keys.dedup.length := by
  have same : (m.entries.map (·.1)).Perm keys.dedup :=
    (List.perm_ext_iff_of_nodup h.distinct keys.nodup_dedup).mpr fun key => by
      rw [h.mem, List.mem_dedup]
  rw [← same.length_eq, List.length_map]

end Memo

namespace Catalog

variable (c : Catalog) (asked : List Lookup)

/-- What a look-up behind others is answered with: what the first of its slot led to. -/
def recalled (l : Lookup) : Except MappingError Destination :=
  c.found ((Lookup.first? asked l).getD l)

/-- The joins of a look-up behind others: none, unless it is the first of its slot. -/
def newJoins (l : Lookup) : List TableJoin :=
  if (Lookup.first? asked l).isSome then [] else joinsOf (c.follow l)

/-- The joins that a request registers behind other look-ups. -/
def registered (q : Request) : List TableJoin :=
  match q.look? with
  | none => []
  | some l => c.newJoins asked l ++ q.lastJoins (c.recalled asked l)

end Catalog

namespace Navigator

variable {n : Navigator} {c : Catalog} {asked : List Lookup}

/-- The memories are those behind the look-ups: each keeps what the first look-up of a key led to,
and has counted them all. -/
structure Accounted (n : Navigator) (c : Catalog) (asked : List Lookup) : Prop where
  catalog : n.catalog = c
  recalls : ∀ m, (n.memo m).Recalls Lookup.key c.found (Lookup.within asked m)
  counts : ∀ m, (n.memo m).Counts ((Lookup.within asked m).map Lookup.key)

theorem accounted_start (c : Catalog) : (start c).Accounted c [] := by
  refine ⟨rfl, fun m => ?_, fun m => ?_⟩
  · cases m <;> exact Memo.recalls_nil
  · cases m <;> exact Memo.counts_nil

private theorem Accounted.withMemo (h : n.Accounted c asked) {l : Lookup} {memo : Memo}
    (recalls : memo.Recalls Lookup.key c.found (Lookup.within asked l.memory ++ [l]))
    (counts : memo.Counts ((Lookup.within asked l.memory).map Lookup.key ++ [l.key]))
    {n' : Navigator} (catalog : n'.catalog = n.catalog) (memos : ∀ m, n'.memo m = n.memo m) :
    (n'.withMemo memo l.memory).Accounted c (asked ++ [l]) := by
  refine ⟨?_, fun m => ?_, fun m => ?_⟩
  · rw [catalog_withMemo, catalog, h.catalog]
  all_goals
    by_cases own : m = l.memory
    · subst own
      rw [memo_withMemo_self, Lookup.within_append_self]
      first
      | exact recalls
      | rw [List.map_append]; exact counts
    · rw [memo_withMemo_of_ne _ _ own, memos, Lookup.within_append_of_ne _ own]
      first
      | exact h.recalls m
      | exact h.counts m

theorem Accounted.look (h : n.Accounted c asked) (l : Lookup) :
    (n.look l).1 = c.recalled asked l ∧
      (n.look l).2.tree = n.tree.addJoins (c.newJoins asked l) ∧
      (n.look l).2.Accounted c (asked ++ [l]) := by
  have kept := h.recalls l.memory l.key
  rw [Lookup.find?_within] at kept
  rcases n.look_cases l with ⟨answer, found, looked⟩ | ⟨absent, looked⟩
  · -- A hit is not the first look-up of its slot, so no joins are owed for it.
    rw [looked]
    rw [found] at kept
    obtain ⟨first, earlier, rfl⟩ := Option.map_eq_some_iff.mp kept.symm
    refine ⟨?_, ?_, ?_⟩
    · rw [Catalog.recalled, earlier]
      rfl
    · rw [tree_withMemo, Catalog.newJoins, earlier]
      rfl
    · exact h.withMemo ((h.recalls _).countHit found) ((h.counts _).countHit found) rfl
        fun _ => rfl
  · rw [looked, h.catalog]
    rw [absent] at kept
    have first := Option.map_eq_none_iff.mp kept.symm
    refine ⟨?_, ?_, ?_⟩
    · rw [Catalog.recalled, first]
      rfl
    · rw [tree_withMemo, tree_register, Catalog.newJoins, first]
      rfl
    · exact h.withMemo ((h.recalls _).remember absent) ((h.counts _).remember absent _)
        (n.register_catalog _) (n.memo_register _)

private theorem Accounted.withTree (h : n.Accounted c asked) (tree : TableTree) :
    Accounted { n with tree } c asked := by
  refine ⟨h.catalog, fun m => ?_, fun m => ?_⟩
  · cases m
    · exact h.recalls .objectPaths
    · exact h.recalls .tablePaths
  · cases m
    · exact h.counts .objectPaths
    · exact h.counts .tablePaths

private theorem Accounted.ask (h : n.Accounted c asked) (q : Request) :
    (n.ask q).2.tree = n.tree.addJoins (c.registered asked q) ∧
      (n.ask q).2.Accounted c (asked ++ q.look?.toList) := by
  cases looked : q.look? with
  | none =>
    rw [n.ask_of_look?_eq_none looked, Catalog.registered, looked, Option.toList_none,
      List.append_nil]
    exact ⟨rfl, h⟩
  | some l =>
    obtain ⟨answer, tree, after⟩ := h.look l
    rw [n.ask_of_look? looked, Catalog.registered, looked, answer]
    refine ⟨?_, after.withTree _⟩
    dsimp only
    rw [tree, TableTree.addJoins_append]

def lookups (requests : List Request) : List Lookup := requests.filterMap Request.look?

theorem lookups_append_singleton (requests : List Request) (q : Request) :
    lookups (requests ++ [q]) = lookups requests ++ q.look?.toList := by
  cases looked : q.look? <;> simp [lookups, looked]

theorem Accounted.askAll {earlier : List Request} (h : n.Accounted c (lookups earlier))
    (requests : List Request) :
    (n.askAll requests).tree = n.tree.addJoins
        ((withEarlier earlier requests).flatMap fun p => c.registered (lookups p.1) p.2) ∧
      (n.askAll requests).Accounted c (lookups (earlier ++ requests)) := by
  induction requests generalizing n earlier with
  | nil =>
    rw [List.append_nil]
    exact ⟨rfl, h⟩
  | cons q requests ih =>
    obtain ⟨tree, after⟩ := h.ask q
    rw [← lookups_append_singleton] at after
    obtain ⟨trees, last⟩ := ih after
    rw [List.append_assoc] at last
    refine ⟨?_, last⟩
    rw [withEarlier, List.flatMap_cons, TableTree.addJoins_append, ← tree]
    exact trees

theorem accounted_askAll (c : Catalog) (history : List Request) :
    ((start c).askAll history).Accounted c (lookups history) := by
  have begun : (start c).Accounted c (lookups []) := accounted_start c
  exact (begun.askAll history).2

private theorem exists_of_first? {requests : List Request} {l first : Lookup}
    (found : Lookup.first? (lookups requests) l = some first) :
    ∃ earlier q later, requests = earlier ++ q :: later ∧ q.look? = some first ∧
      Lookup.first? (lookups earlier) first = none := by
  have same := Lookup.slot_of_first? found
  rw [Lookup.first?, lookups, List.find?_filterMap, Option.bind_eq_some_iff] at found
  obtain ⟨q, asks, looked⟩ := found
  obtain ⟨-, earlier, later, run, others⟩ := List.find?_eq_some_iff_append.mp asks
  refine ⟨earlier, q, later, run, looked, ?_⟩
  rw [Lookup.first?, lookups, List.find?_filterMap, same, Option.bind_eq_none_iff]
  intro other found
  have differs := others other (List.mem_of_find?_eq_some found)
  rw [List.find?_some found] at differs
  cases differs

theorem hasPath_of_first? {c : Catalog} {requests : List Request} {l first : Lookup}
    (found : Lookup.first? (lookups requests) l = some first) {j : TableJoin}
    (member : j ∈ joinsOf (c.follow first)) :
    ((start c).askAll requests).tree.hasPath j.path = true := by
  obtain ⟨earlier, q, later, rfl, looked, new⟩ := exists_of_first? found
  have begun : (start c).Accounted c (lookups []) := accounted_start c
  have tree := ((begun.askAll earlier).2.ask q).1
  rw [List.nil_append, Catalog.registered, looked] at tree
  rw [askAll_append, askAll_cons]
  refine askAll_induction (P := fun n => n.tree.hasPath j.path = true)
    (fun n q _ there => hasPath_ask there q) ?_
  rw [tree, TableTree.hasPath_addJoins]
  refine .inr ⟨j, List.mem_append_left _ ?_, rfl⟩
  rw [Catalog.newJoins, new]
  exact member

private theorem recalled_of_slot_eq (c : Catalog) (earlier later : List Lookup) {f l : Lookup}
    (same : f.slot = l.slot) :
    c.recalled (earlier ++ f :: later) l = c.recalled earlier f ∧
      c.newJoins (earlier ++ f :: later) l = [] := by
  have first : Lookup.first? (earlier ++ f :: later) l =
      some ((Lookup.first? earlier f).getD f) := by
    rw [Lookup.first?, List.find?_append, List.find?_cons_of_pos (by simpa using same),
      Option.or_some, Lookup.first?, same]
  rw [Catalog.recalled, Catalog.newJoins, first, Catalog.recalled]
  exact ⟨rfl, rfl⟩

/-- After every run of requests, each memory has counted a miss for each key that it was asked for
and a hit for every other look-up. A look-up of a key that was looked up before is answered as it
was then, and registers no joins. And the tree is made of the joins of the first look-ups and of
the last joins of id paths, in the order of the requests. -/
theorem askAll_accounting (c : Catalog) (requests : List Request) :
    let after := (start c).askAll requests
    (∀ m : Memory,
        let keys := (Lookup.within (lookups requests) m).map Lookup.key
        let stats := (after.memo m).stats
        stats.misses = .ofNat stats.size ∧ stats.size = keys.dedup.length ∧
          stats.hits + stats.misses = .ofNat keys.length) ∧
      (∀ earlier q later f l, requests = earlier ++ q :: later → q.look? = some f →
        f.slot = l.slot → (after.look l).1 = (((start c).askAll earlier).look f).1 ∧
          (after.look l).2.tree = after.tree) ∧
      after.tree = TableTree.addJoins {}
        ((withEarlier [] requests).flatMap fun p => c.registered (lookups p.1) p.2) := by
  intro after
  have begun : (start c).Accounted c (lookups []) := accounted_start c
  obtain ⟨tree, accounted⟩ := begun.askAll requests
  refine ⟨fun m => ?_, ?_, tree⟩
  · have counts := accounted.counts m
    exact ⟨counts.misses, counts.size_eq, counts.lookups⟩
  · intro earlier q later f l run looked same
    have split : lookups ([] ++ requests) = lookups earlier ++ f :: lookups later := by
      rw [run, lookups, List.nil_append, List.filterMap_append, List.filterMap_cons_some looked]
      rfl
    rw [split] at accounted
    obtain ⟨recalled, nothing⟩ := recalled_of_slot_eq c (lookups earlier) (lookups later) same
    obtain ⟨answer, kept, -⟩ := accounted.look l
    have earlier_answer := ((begun.askAll earlier).2.look f).1
    constructor
    · rw [answer, earlier_answer]
      exact recalled
    · rw [kept, nothing]
      rfl

open Gallery

theorem askAll_accounting_gallery :
    let requests := [Request.object painting "toArtist" none, .object painting "NOPE" none,
      .id painting "toArtist.ARTIST_ID", .table paintingTable "toArtist" none true,
      .object painting "NOPE" none, .id painting "PAINTING_ID"]
    let after := (start schema).askAll requests
    let again : Lookup := .object ⟨painting, "NOPE", none⟩
    (after.memo .objectPaths).stats = ⟨2, 2, 2⟩ ∧ (after.memo .tablePaths).stats = ⟨0, 1, 1⟩ ∧
      (after.look again).1 =
        (((start schema).askAll [.object painting "toArtist" none]).look again).1 ∧
      (after.look again).2.tree = after.tree ∧
      after.tree.joins.map (·.path) = ["toArtist"] := by
  intro requests after again
  obtain ⟨-, repeated, -⟩ := askAll_accounting schema requests
  obtain ⟨answer, tree⟩ := repeated [.object painting "toArtist" none]
    (.object painting "NOPE" none) (requests.drop 2) again again rfl rfl rfl
  exact ⟨by decide +kernel, by decide +kernel, answer, tree, by decide +kernel⟩

end Navigator

end ObjectRelational
