import ObjectRelational.Proofs.Catalog.Restated
import ObjectRelational.Proofs.Commit.Index
import ObjectRelational.Proofs.Commit.Runs
import ObjectRelational.Proofs.Digraph.Agreement

set_option autoImplicit false
set_option relaxedAutoImplicit false

/-!
What the commit order does not hang on. Joins can be declared in any order, from either side and
in either form; and if names break ties, tables can be declared in any order as well.
-/

namespace ObjectRelational

private theorem leastName_eq_none_iff {names : List String} :
    leastName names = none ↔ names = [] := by
  cases names with
  | nil => exact ⟨fun _ => rfl, fun _ => rfl⟩
  | cons name names =>
    rw [leastName]
    split <;> simp

private theorem of_leastName_eq_some {names : List String} {least : String}
    (found : leastName names = some least) : least ∈ names ∧ ∀ name ∈ names, least ≤ name := by
  induction names generalizing least with
  | nil => cases found
  | cons first names ih =>
    rw [leastName] at found
    cases rest : leastName names with
    | none =>
      rw [rest] at found
      obtain rfl := Option.some.inj found
      obtain rfl := leastName_eq_none_iff.mp rest
      simp
    | some other =>
      rw [rest] at found
      obtain ⟨member, minimal⟩ := ih rest
      dsimp only at found
      split at found
      · rename_i less
        obtain rfl := Option.some.inj found
        refine ⟨List.mem_cons_of_mem _ member, fun name hname => ?_⟩
        rcases List.mem_cons.mp hname with rfl | hname
        · exact String.not_lt.mp (String.lt_asymm less)
        · exact minimal name hname
      · rename_i notLess
        obtain rfl := Option.some.inj found
        refine ⟨List.mem_cons_self, fun name hname => ?_⟩
        rcases List.mem_cons.mp hname with rfl | hname
        · exact String.le_refl name
        · exact String.le_trans (String.not_lt.mp notLess) (minimal name hname)

private theorem leastName_congr {names names' : List String} (perm : names.Perm names') :
    leastName names = leastName names' := by
  cases found : leastName names with
  | none =>
    obtain rfl := leastName_eq_none_iff.mp found
    obtain rfl := perm.symm.eq_nil
    rfl
  | some least =>
    cases found' : leastName names' with
    | none =>
      obtain rfl := leastName_eq_none_iff.mp found'
      obtain rfl := perm.eq_nil
      cases found
    | some least' =>
      obtain ⟨member, minimal⟩ := of_leastName_eq_some found
      obtain ⟨member', minimal'⟩ := of_leastName_eq_some found'
      have le := minimal least' (perm.mem_iff.mpr member')
      have ge := minimal' least (perm.mem_iff.mp member)
      exact congrArg some (String.le_antisymm le ge)

namespace CommitIndex

open ObjectRelational.Digraph

private theorem linear_preference {E : Type} (tieBreak : TieBreak) (g : Digraph (List String) E) :
    Linear (preference tieBreak g) := by
  cases tieBreak with
  | insertionOrder => exact linear_prefersEarlier
  | entityName => exact linear_prefersKey _

private theorem preference_congr {E : Type} (tieBreak : TieBreak) {g g' : Digraph (List String) E}
    (same : g.vertices = g'.vertices) : preference tieBreak g = preference tieBreak g' := by
  cases tieBreak with
  | insertionOrder => rfl
  | entityName => exact congrArg (fun vertices => prefersKey (vertices.map leastName)) same

private theorem leastName_apart {g : Digraph String (List Column)} (h : g.WellFormed)
    {c d : List String} (hc : c ∈ g.components) (hd : d ∈ g.components) (differ : c ≠ d) :
    compare (leastName c) (leastName d) ≠ .eq := by
  intro tied
  have same : leastName c = leastName d := Std.LawfulEqOrd.eq_of_compare tied
  cases found : leastName c with
  | none => exact h.component_ne_nil c hc (leastName_eq_none_iff.mp found)
  | some least =>
    rw [found] at same
    have shared := (of_leastName_eq_some found).1
    have shared' := (of_leastName_eq_some same.symm).1
    exact differ (h.component_unique hc hd shared shared')

variable {c c' : Catalog}

private theorem dependencyGraph_agrees (h : c.Resolved) (h' : c'.Resolved)
    (tables : c.tables.Perm c'.tables) (precedes : ∀ t s, c.Precedes t s ↔ c'.Precedes t s) :
    Agrees (dependencyGraph c) (dependencyGraph c') := by
  refine ⟨?_, fun x y => ?_⟩
  · rw [vertices_dependencyGraph h, vertices_dependencyGraph h']
    exact tables.map _
  · rw [hasArc_dependencyGraph h, hasArc_dependencyGraph h']
    simp only [precedes]

private theorem table?_congr (h : c.Resolved) (tables : c.tables.Perm c'.tables) :
    c.table? = c'.table? :=
  Join.findTable_congr h.distinct tables

private theorem build_eq_of_tables_eq (h : c.Resolved) (h' : c'.Resolved)
    (tables : c.tables = c'.tables) (precedes : ∀ t s, c.Precedes t s ↔ c'.Precedes t s)
    (policy : CommitPolicy) :
    (build c policy).groups = (build c' policy).groups ∧
      (build c policy).arcs = (build c' policy).arcs := by
  have agrees := dependencyGraph_agrees h h' (.of_eq tables) precedes
  have formed := (dependencyGraph_built h).wellFormed
  have formed' := (dependencyGraph_built h').wellFormed
  have vertices : (dependencyGraph c).vertices = (dependencyGraph c').vertices := by
    rw [vertices_dependencyGraph h, vertices_dependencyGraph h', tables]
  have contracted := agrees.contract formed formed' vertices
  have components :
      (dependencyGraph c).contract.vertices = (dependencyGraph c').contract.vertices := by
    rw [formed.vertices_contract, formed'.vertices_contract,
      agrees.components_eq formed formed' vertices]
  have names : groupNames policy.tieBreak (dependencyGraph c) =
      groupNames policy.tieBreak (dependencyGraph c') := by
    rw [groupNames_eq_ok formed, groupNames_eq_ok formed', preference_congr _ components,
      contracted.emittedVertices_eq formed.contract formed'.contract components
        (linear_preference _ _) formed.contract_acyclic]
  constructor
  · simp only [build, names, rankGroups, table?_congr h (.of_eq tables)]
  · exact agrees.size_eq formed formed' vertices

def Matches (g g' : CommitGroup) : Prop := g.rank = g'.rank ∧ g.tables.Perm g'.tables

private theorem forall₂_rankGroups {names names' : List (List String)}
    (perms : List.Forall₂ List.Perm names names') (tables : c.table? = c'.table?) :
    List.Forall₂ Matches (rankGroups c names) (rankGroups c' names') := by
  rw [rankGroups, rankGroups, List.forall₂_map_left_iff, List.forall₂_map_right_iff]
  refine (forall₂_zipIdx perms 0).imp ?_
  rintro ⟨members, rank⟩ ⟨members', rank'⟩ ⟨perm, same⟩
  refine ⟨same, ?_⟩
  dsimp only
  rw [tables]
  exact perm.filterMap _

private theorem map_rank_find?_hasTable {gs gs' : List CommitGroup}
    (groups : List.Forall₂ Matches gs gs') (table : String) :
    (gs.find? (·.hasTable table)).map (·.rank) =
      (gs'.find? (·.hasTable table)).map (·.rank) := by
  induction groups with
  | nil => rfl
  | @cons g g' gs gs' first _ ih =>
    have listed : g.hasTable table = g'.hasTable table := first.2.any_eq
    rw [List.find?_cons, List.find?_cons, listed]
    cases g'.hasTable table with
    | true => exact congrArg some first.1
    | false => exact ih

private theorem matches_of_entityName (h : c.Resolved) (h' : c'.Resolved)
    (tables : c.tables.Perm c'.tables) (precedes : ∀ t s, c.Precedes t s ↔ c'.Precedes t s)
    {policy : CommitPolicy} (byName : policy.tieBreak = .entityName) :
    List.Forall₂ Matches (build c policy).groups (build c' policy).groups := by
  have agrees := dependencyGraph_agrees h h' tables precedes
  have formed := (dependencyGraph_built h).wellFormed
  have formed' := (dependencyGraph_built h').wellFormed
  have emitted := agrees.forall₂_emittedVertices_contract formed formed' leastName_congr
    fun _ hc _ hd => leastName_apart formed hc hd
  rw [build, build, byName, groupNames_eq_ok formed, groupNames_eq_ok formed']
  exact forall₂_rankGroups (emitted.imp fun _ _ both => both.2.2) (table?_congr h tables)

/-- The commit order hangs on what joins say, not on how they are written down: in which order,
from which side and in which form. If names break ties, neither the groups nor their ranks hang on
the order in which tables are declared. -/
theorem build_restated {maps maps' : List DataMap} {supply supply' after after' : NameSupply}
    (compiled : Catalog.compile maps supply = (.ok c, after))
    (compiled' : Catalog.compile maps' supply' = (.ok c', after'))
    (joins : Join.Restated (maps.flatMap (·.joins)) (maps'.flatMap (·.joins)))
    (tables : (maps.flatMap (·.tables)).Perm (maps'.flatMap (·.tables))) :
    (maps.flatMap (·.tables) = maps'.flatMap (·.tables) → ∀ policy,
      (build c policy).groups = (build c' policy).groups ∧
        (build c policy).arcs = (build c' policy).arcs) ∧
    ∀ policy, policy.tieBreak = .entityName →
      List.Forall₂ Matches (build c policy).groups (build c' policy).groups ∧
        ∀ table, (build c policy).rank? table = (build c' policy).rank? table := by
  have resolved := Catalog.resolved_of_compile compiled
  have resolved' := Catalog.resolved_of_compile compiled'
  have precedes : ∀ t s, c.Precedes t s ↔ c'.Precedes t s := fun _ _ =>
    Catalog.precedes_congr compiled compiled' tables joins
  obtain ⟨gathered, -⟩ := Catalog.of_gatherTables (Catalog.stages_of_compile compiled).tables
  obtain ⟨gathered', -⟩ := Catalog.of_gatherTables (Catalog.stages_of_compile compiled').tables
  rw [← gathered, ← gathered'] at tables ⊢
  refine ⟨fun same policy => build_eq_of_tables_eq resolved resolved' same precedes policy,
    fun policy byName => ?_⟩
  have groups := matches_of_entityName resolved resolved' tables precedes byName
  exact ⟨groups, map_rank_find?_hasTable groups⟩

end CommitIndex

namespace Workshop

def restated : DataMap where
  name := "workshop"
  tables := map.tables
  joins :=
    [{ condition := .multi [⟨"ID", "ARTIST_ID"⟩]
       entities := ⟨"ARTIST", "PAINTING"⟩
       names := ⟨some "paintings", some "artist"⟩
       cardinality := .oneToMany },
     { condition := .single ⟨"ID", "MASTER_ID"⟩
       entities := ⟨"ARTIST", "ARTIST"⟩
       names := ⟨some "pupils", some "master"⟩
       cardinality := .oneToMany }]

def reordered : DataMap := { restated with tables := restated.tables.reverse }

private theorem restated_joins :
    Join.Restated ([map].flatMap (·.joins)) ([restated].flatMap (·.joins)) := by
  refine ⟨map.joins.reverse, ?_, ?_⟩
  · exact (List.reverse_perm map.joins).symm
  · exact .cons (.trans (.mirror _) (.multi rfl)) (.cons (.mirror _) .nil)

end Workshop

namespace CommitIndex

open Workshop

theorem build_restated_workshop :
    ∃ c₁ after₁ c₂ after₂, Catalog.compile [restated] {} = (.ok c₁, after₁) ∧
      Catalog.compile [reordered] {} = (.ok c₂, after₂) ∧
      (build schema {}).groups = (build c₁ {}).groups ∧
      ∀ table, (build schema { tieBreak := .entityName }).rank? table =
        (build c₂ { tieBreak := .entityName }).rank? table := by
  have compiled₁ : Catalog.compile [restated] {} = (.ok _, _) := rfl
  have compiled₂ : Catalog.compile [reordered] {} = (.ok _, _) := rfl
  have tables : ([map].flatMap (·.tables)).Perm ([reordered].flatMap (·.tables)) :=
    (List.reverse_perm map.tables).symm
  obtain ⟨same, -⟩ := build_restated compile_map compiled₁ restated_joins (.refl _)
  obtain ⟨-, byName⟩ := build_restated compile_map compiled₂ restated_joins tables
  exact ⟨_, _, _, _, compiled₁, compiled₂, (same rfl {}).1,
    (byName { tieBreak := .entityName } rfl).2⟩

end CommitIndex

end ObjectRelational
