import ObjectRelational.Proofs.Commit.DependencyGraph

set_option autoImplicit false
set_option relaxedAutoImplicit false

/-!
The commit order of a catalog that was compiled. An order of groups always comes out, every table
is in one group, and no table is ranked before one that it refers to.
-/

namespace ObjectRelational

private theorem CommitGroup.hasTable_iff {g : CommitGroup} {table : String} :
    g.hasTable table = true ↔ ∃ t ∈ g.tables, t.name = table := by
  simp [hasTable]

namespace CommitIndex

open Relation
open ObjectRelational.Digraph

variable {c : Catalog}

/-- Lists of names that can be ranked: the groups of tables that are entangled, each behind those
that it refers to. -/
structure Orders (c : Catalog) (names : List (List String)) : Prop where
  perm : names.Perm (dependencyGraph c).components
  forward : ∀ first second, (dependencyGraph c).contract.hasArc first second = true →
    [first, second].Sublist names

theorem groupNames_eq_ok {g : Digraph String (List Column)} (h : g.WellFormed)
    (tieBreak : TieBreak) : groupNames tieBreak g =
      .ok (g.contract.emittedVertices (preference tieBreak g.contract)) :=
  h.contract.topologicalOrder_of_acyclic _ h.contract_acyclic

private theorem exists_groupNames (h : c.Resolved) (tieBreak : TieBreak) :
    ∃ names, groupNames tieBreak (dependencyGraph c) = .ok names ∧ Orders c names := by
  have formed := (dependencyGraph_built h).wellFormed
  let prefers := preference tieBreak (dependencyGraph c).contract
  have perm := formed.contract.emittedVertices_perm prefers formed.contract_acyclic
  refine ⟨_, groupNames_eq_ok formed tieBreak, ?_, ?_⟩
  · rw [formed.vertices_contract] at perm
    exact perm
  · intro first second arc
    exact formed.contract.sublist_emittedVertices prefers arc
      (perm.mem_iff.mpr (formed.contract.mem_of_hasArc arc).2)

private theorem mem_filterMap_table? (h : c.Resolved) {members : List String} {t : Table} :
    t ∈ members.filterMap c.table? ↔ t ∈ c.tables ∧ t.name ∈ members := by
  rw [List.mem_filterMap]
  constructor
  · rintro ⟨name, member, found⟩
    obtain ⟨ht, rfl⟩ := Join.mem_of_findTable found
    exact ⟨ht, member⟩
  · rintro ⟨ht, member⟩
    exact ⟨t.name, member, h.table?_name ht⟩

private theorem mem_rankGroups {names : List (List String)} {g : CommitGroup} :
    g ∈ rankGroups c names ↔
      ∃ members, names[g.rank]? = some members ∧ g.tables = members.filterMap c.table? := by
  rw [rankGroups, List.mem_map]
  constructor
  · rintro ⟨⟨members, rank⟩, entry, rfl⟩
    exact ⟨members, List.mem_zipIdx_iff_getElem?.mp entry, rfl⟩
  · rintro ⟨members, found, tables⟩
    refine ⟨(members, g.rank), List.mem_zipIdx_iff_getElem?.mpr found, ?_⟩
    exact congrArg (CommitGroup.mk g.rank) tables.symm

private theorem mem_tables_of_mem_rankGroups (h : c.Resolved) {names : List (List String)}
    {g : CommitGroup} (hg : g ∈ rankGroups c names) {t : Table} (ht : t ∈ g.tables) :
    t ∈ c.tables := by
  obtain ⟨members, -, tables⟩ := mem_rankGroups.mp hg
  exact ((mem_filterMap_table? h).mp (tables ▸ ht)).1

private theorem map_rank_rankGroups (names : List (List String)) :
    (rankGroups c names).map (·.rank) = List.range (rankGroups c names).length := by
  rw [rankGroups, List.map_map, List.length_map, List.length_zipIdx, List.range_eq_range']
  exact List.zipIdx_map_snd 0 names

namespace Orders

variable {names : List (List String)}

private theorem nodup (orders : Orders c names) (h : c.Resolved) : names.Nodup :=
  orders.perm.nodup_iff.mpr (dependencyGraph_built h).wellFormed.components_nodup

private theorem tables_perm (orders : Orders c names) (h : c.Resolved) :
    ((rankGroups c names).flatMap (·.tables)).Perm c.tables := by
  have formed := (dependencyGraph_built h).wellFormed
  have flat : (rankGroups c names).flatMap (·.tables) = names.flatten.filterMap c.table? := by
    conv_rhs => rw [← List.zipIdx_map_fst 0 names]
    rw [rankGroups, List.flatMap_def, List.map_map, List.filterMap_flatten, List.map_map]
    rfl
  have all : names.flatten.Perm (c.tables.map (·.name)) :=
    (orders.perm.flatten.trans formed.components_perm).trans
      (.of_eq (vertices_dependencyGraph h))
  rw [flat]
  refine (all.filterMap c.table?).trans (.of_eq ?_)
  rw [List.filterMap_map]
  exact (List.filterMap_congr fun t ht => h.table?_name ht).trans List.filterMap_some

private theorem exists_group_iff (orders : Orders c names) (h : c.Resolved) {t s : Table}
    (ht : t ∈ c.tables) (hs : s ∈ c.tables) :
    (∃ g ∈ rankGroups c names, t ∈ g.tables ∧ s ∈ g.tables) ↔ c.Entangled t s := by
  have formed := (dependencyGraph_built h).wellFormed
  have vertex : t.name ∈ (dependencyGraph c).vertices :=
    (vertices_dependencyGraph h).symm ▸ List.mem_map_of_mem ht
  rw [← mutual_dependencyGraph_iff h ht hs, ← formed.exists_component_iff_mutual vertex]
  constructor
  · rintro ⟨g, hg, htg, hsg⟩
    obtain ⟨members, found, tables⟩ := mem_rankGroups.mp hg
    rw [tables, mem_filterMap_table? h] at htg hsg
    exact ⟨members, orders.perm.mem_iff.mp (List.mem_of_getElem? found), htg.2, hsg.2⟩
  · rintro ⟨members, component, hmt, hms⟩
    obtain ⟨rank, found⟩ := List.mem_iff_getElem?.mp (orders.perm.mem_iff.mpr component)
    refine ⟨⟨rank, _⟩, mem_rankGroups.mpr ⟨members, found, rfl⟩, ?_, ?_⟩
    · exact (mem_filterMap_table? h).mpr ⟨ht, hmt⟩
    · exact (mem_filterMap_table? h).mpr ⟨hs, hms⟩

private theorem exists_group (orders : Orders c names) (h : c.Resolved) {t : Table}
    (ht : t ∈ c.tables) : ∃ g ∈ rankGroups c names, t ∈ g.tables := by
  obtain ⟨g, hg, member, -⟩ := (orders.exists_group_iff h ht ht).mpr ⟨.refl, .refl⟩
  exact ⟨g, hg, member⟩

private theorem group_unique (orders : Orders c names) (h : c.Resolved) {g g' : CommitGroup}
    (hg : g ∈ rankGroups c names) (hg' : g' ∈ rankGroups c names) {t : Table} (ht : t ∈ g.tables)
    (ht' : t ∈ g'.tables) : g = g' := by
  have formed := (dependencyGraph_built h).wellFormed
  obtain ⟨rank, tables⟩ := g
  obtain ⟨rank', tables'⟩ := g'
  obtain ⟨members, found, rfl⟩ := mem_rankGroups.mp hg
  obtain ⟨members', found', rfl⟩ := mem_rankGroups.mp hg'
  have same : members = members' := formed.component_unique
    (orders.perm.mem_iff.mp (List.mem_of_getElem? found))
    (orders.perm.mem_iff.mp (List.mem_of_getElem? found'))
    ((mem_filterMap_table? h).mp ht).2 ((mem_filterMap_table? h).mp ht').2
  subst same
  have place := (List.getElem?_inj (List.getElem?_eq_some_iff.mp found).1
    (orders.nodup h)).mp (found.trans found'.symm)
  exact congrArg (CommitGroup.mk · _) place

private theorem group?_eq (orders : Orders c names) (h : c.Resolved) {i : CommitIndex}
    (groups : i.groups = rankGroups c names) {g : CommitGroup} (hg : g ∈ rankGroups c names)
    {t : Table} (ht : t ∈ g.tables) : i.group? t.name = some g := by
  unfold group?
  rw [groups]
  cases hfound : (rankGroups c names).find? (·.hasTable t.name) with
  | none =>
    refine absurd ?_ (List.find?_eq_none.mp hfound g hg)
    exact List.any_eq_true.mpr ⟨t, ht, beq_self_eq_true _⟩
  | some g' =>
    have hg' := List.mem_of_find?_eq_some hfound
    have hits := List.find?_some hfound
    obtain ⟨u, hu, same⟩ := CommitGroup.hasTable_iff.mp hits
    obtain rfl : u = t := h.eq_of_name (mem_tables_of_mem_rankGroups h hg' hu)
      (mem_tables_of_mem_rankGroups h hg ht) same
    rw [orders.group_unique h hg' hg hu ht]

private theorem rank?_eq (orders : Orders c names) (h : c.Resolved) {i : CommitIndex}
    (groups : i.groups = rankGroups c names) {g : CommitGroup} (hg : g ∈ rankGroups c names)
    {t : Table} (ht : t ∈ g.tables) : i.rank? t.name = some g.rank := by
  rw [rank?, orders.group?_eq h groups hg ht]
  rfl

private theorem rank_le_of_precedes (orders : Orders c names) (h : c.Resolved) {t s : Table}
    (precedes : c.Precedes t s) {g g' : CommitGroup} (hg : g ∈ rankGroups c names)
    (hg' : g' ∈ rankGroups c names) (ht : t ∈ g.tables) (hs : s ∈ g'.tables) :
    g.rank ≤ g'.rank ∧ (¬ c.Entangled t s → g.rank < g'.rank) := by
  have formed := (dependencyGraph_built h).wellFormed
  obtain ⟨members, found, tables⟩ := mem_rankGroups.mp hg
  obtain ⟨members', found', tables'⟩ := mem_rankGroups.mp hg'
  obtain ⟨ht', hmt⟩ := (mem_filterMap_table? h).mp (tables ▸ ht)
  obtain ⟨hs', hms⟩ := (mem_filterMap_table? h).mp (tables' ▸ hs)
  by_cases entangled : c.Entangled t s
  · obtain ⟨both, hboth, hbt, hbs⟩ := (orders.exists_group_iff h ht' hs').mpr entangled
    have same : g = g' :=
      (orders.group_unique h hg hboth ht hbt).trans (orders.group_unique h hboth hg' hbs hs)
    exact ⟨same ▸ Nat.le_refl _, absurd entangled⟩
  · have different : members ≠ members' := by
      rintro rfl
      exact entangled ((orders.exists_group_iff h ht' hs').mp
        ⟨g, hg, ht, tables ▸ (mem_filterMap_table? h).mpr ⟨hs', hms⟩⟩)
    have arc : (dependencyGraph c).contract.hasArc members members' = true := by
      refine (formed.hasArc_contract (orders.perm.mem_iff.mp (List.mem_of_getElem? found))
        (orders.perm.mem_iff.mp (List.mem_of_getElem? found'))).mpr ⟨different, ?_⟩
      exact ⟨t.name, hmt, s.name, hms,
        (hasArc_dependencyGraph h).mpr ⟨t, s, precedes, rfl, rfl⟩⟩
    have lt := lt_of_pair_sublist (orders.nodup h) (orders.forward _ _ arc) found found'
    exact ⟨Nat.le_of_lt lt, fun _ => lt⟩

end Orders

private theorem exists_orders (h : c.Resolved) (policy : CommitPolicy) :
    ∃ names, Orders c names ∧ (build c policy).groups = rankGroups c names := by
  obtain ⟨names, sorted, orders⟩ := exists_groupNames h policy.tieBreak
  refine ⟨names, orders, ?_⟩
  rw [build, sorted]
  rfl

theorem rank?_isSome_iff (h : c.Resolved) (policy : CommitPolicy) (table : String) :
    ((build c policy).rank? table).isSome = true ↔ (c.table? table).isSome = true := by
  obtain ⟨names, orders, groups⟩ := exists_orders h policy
  constructor
  · intro ranked
    rw [rank?, Option.isSome_map, group?, groups, List.find?_isSome] at ranked
    obtain ⟨g, hg, hits⟩ := ranked
    obtain ⟨t, ht, rfl⟩ := CommitGroup.hasTable_iff.mp hits
    rw [h.table?_name (mem_tables_of_mem_rankGroups h hg ht)]
    rfl
  · intro listed
    obtain ⟨t, found⟩ := Option.isSome_iff_exists.mp listed
    obtain ⟨ht, rfl⟩ := Join.mem_of_findTable found
    obtain ⟨g, hg, member⟩ := orders.exists_group h ht
    rw [orders.rank?_eq h groups hg member]
    rfl

theorem rank_lt_of_group_ne (h : c.Resolved) (policy : CommitPolicy) {r : Relationship}
    (side : r ∈ c.sides) (constraining : r.Constraining)
    (apart : (build c policy).group? r.target.name ≠ (build c policy).group? r.source.name) :
    ∃ m n, (build c policy).rank? r.target.name = some m ∧
      (build c policy).rank? r.source.name = some n ∧ m < n := by
  obtain ⟨names, orders, groups⟩ := exists_orders h policy
  have target := h.target_mem side
  have source := h.source_mem side
  obtain ⟨g, hg, ht⟩ := orders.exists_group h target
  obtain ⟨g', hg', hs⟩ := orders.exists_group h source
  refine ⟨g.rank, g'.rank, orders.rank?_eq h groups hg ht, orders.rank?_eq h groups hg' hs, ?_⟩
  refine (orders.rank_le_of_precedes h ⟨r, side, constraining, rfl, rfl⟩ hg hg' ht hs).2 ?_
  intro entangled
  obtain ⟨both, hboth, hbt, hbs⟩ := (orders.exists_group_iff h target source).mpr entangled
  apply apart
  rw [orders.group?_eq h groups hboth hbt, orders.group?_eq h groups hboth hbs]

/-- The index of a catalog that was compiled: there is an order, it lists every table once and
together with the tables that it is entangled with, ranks count the groups and are those looked up,
and every constraining relationship has its target no later than its source. -/
theorem build_ranks_tables {maps : List DataMap} {supply after : NameSupply}
    (compiled : Catalog.compile maps supply = (.ok c, after)) (policy : CommitPolicy) :
    (∃ names, groupNames policy.tieBreak (dependencyGraph c) = .ok names ∧
        (build c policy).groups = rankGroups c names) ∧
      (c.tables.map (·.name)).Nodup ∧
      ((build c policy).groups.flatMap (·.tables)).Perm c.tables ∧
      (∀ t ∈ c.tables, ∀ s ∈ c.tables,
        (∃ g ∈ (build c policy).groups, t ∈ g.tables ∧ s ∈ g.tables) ↔ c.Entangled t s) ∧
      (build c policy).groups.map (·.rank) = List.range (build c policy).groups.length ∧
      (∀ g ∈ (build c policy).groups, ∀ t ∈ g.tables,
        (build c policy).rank? t.name = some g.rank) ∧
      ∀ r ∈ c.sides, r.Constraining →
        ∃ rank rank', (build c policy).rank? r.target.name = some rank ∧
          (build c policy).rank? r.source.name = some rank' ∧ rank ≤ rank' ∧
          (¬ c.Entangled r.target r.source → rank < rank') := by
  have resolved := Catalog.resolved_of_compile compiled
  obtain ⟨names, sorted, orders⟩ := exists_groupNames resolved policy.tieBreak
  have groups : (build c policy).groups = rankGroups c names := by
    rw [build, sorted]
    rfl
  refine ⟨⟨names, sorted, groups⟩, resolved.distinct, ?_, fun t ht s hs => ?_, ?_,
    fun g hg t ht => ?_, fun r side constraining => ?_⟩
  · rw [groups]
    exact orders.tables_perm resolved
  · rw [groups]
    exact orders.exists_group_iff resolved ht hs
  · rw [groups]
    exact map_rank_rankGroups names
  · rw [groups] at hg
    exact orders.rank?_eq resolved groups hg ht
  · obtain ⟨g, hg, ht⟩ := orders.exists_group resolved (resolved.target_mem side)
    obtain ⟨g', hg', hs⟩ := orders.exists_group resolved (resolved.source_mem side)
    obtain ⟨le, lt⟩ := orders.rank_le_of_precedes resolved ⟨r, side, constraining, rfl, rfl⟩
      hg hg' ht hs
    exact ⟨g.rank, g'.rank, orders.rank?_eq resolved groups hg ht,
      orders.rank?_eq resolved groups hg' hs, le, lt⟩

theorem build_ranks_tables_reference :
    let artist : Table := { name := "ARTIST", columns := [.key "ID"] }
    let painting : Table :=
      { name := "PAINTING", columns := [.key "ID", ⟨"ARTIST_ID", false, false⟩] }
    let join : Join :=
      { condition := .single ⟨"ARTIST_ID", "ID"⟩
        entities := ⟨"PAINTING", "ARTIST"⟩
        names := ⟨some "artist", some "paintings"⟩
        cardinality := .manyToOne }
    let maps : List DataMap :=
      [{ name := "gallery", tables := [artist, painting], joins := [join] }]
    ∃ c after, Catalog.compile maps {} = (.ok c, after) ∧
      ∃ rank rank', (build c {}).rank? "ARTIST" = some rank ∧
        (build c {}).rank? "PAINTING" = some rank' ∧ rank ≤ rank' := by
  intro artist painting join maps
  have compiled : Catalog.compile maps {} = (.ok _, _) := rfl
  obtain ⟨-, -, -, -, -, -, sides⟩ := build_ranks_tables compiled {}
  obtain ⟨rank, rank', target, source, le, -⟩ :=
    sides _ List.mem_cons_self ((Relationship.constrains_iff _).mp rfl)
  exact ⟨_, _, compiled, rank, rank', target, source, le⟩

end CommitIndex

end ObjectRelational
