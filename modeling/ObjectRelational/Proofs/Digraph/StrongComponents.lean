import Mathlib.Data.List.Pairwise
import ObjectRelational.Proofs.Data.List
import ObjectRelational.Proofs.Digraph.SearchInvariant
import ObjectRelational.Proofs.Digraph.WellFormed

set_option autoImplicit false
set_option relaxedAutoImplicit false

/-!
The components that a search leaves behind, first as positions and then as vertices: they partition
the graph into classes of mutually reachable vertices, and everything stands in the order of the
vertices.
-/

namespace ObjectRelational.Digraph

open Relation
open ObjectRelational.Order

/-- The classes of mutually reachable positions, in order. -/
structure StrongPartition (adjacency : List (List Nat)) (components : List (List Nat)) : Prop where
  perm : components.flatten.Perm (List.range adjacency.length)
  ne_nil : ∀ c ∈ components, c ≠ []
  sorted : ∀ c ∈ components, c.Pairwise (· < ·)
  strong : ∀ c ∈ components, ∀ p ∈ c, ∀ q, q ∈ c ↔ Walk adjacency p q ∧ Walk adjacency q p
  heads : components.Pairwise fun c d => c.headD 0 < d.headD 0

namespace StrongPartition

variable {adjacency components : List (List Nat)}

theorem nodup_flatten (h : StrongPartition adjacency components) : components.flatten.Nodup :=
  h.perm.nodup_iff.mpr List.nodup_range

theorem mem_flatten (h : StrongPartition adjacency components) {p : Nat} :
    p ∈ components.flatten ↔ p < adjacency.length :=
  h.perm.mem_iff.trans List.mem_range

theorem lt_of_mem (h : StrongPartition adjacency components) {c : List Nat}
    (hc : c ∈ components) {p : Nat} (hp : p ∈ c) : p < adjacency.length :=
  h.mem_flatten.mp (List.mem_flatten_of_mem hc hp)

end StrongPartition

private theorem headD_mem {c : List Nat} (h : c ≠ []) : c.headD 0 ∈ c := by
  cases c with
  | nil => exact absurd rfl h
  | cons p c => simp

namespace StrongPartition

variable {adjacency adjacency' components components' : List (List Nat)}

theorem congr (h : StrongPartition adjacency components)
    (same : adjacency.length = adjacency'.length)
    (leads : ∀ p q, Leads adjacency p q ↔ Leads adjacency' p q) :
    StrongPartition adjacency' components := by
  have walks : Leads adjacency = Leads adjacency' := by
    funext p q
    exact propext (leads p q)
  refine ⟨same ▸ h.perm, h.ne_nil, h.sorted, fun c hc p hp q => ?_, h.heads⟩
  rw [h.strong c hc p hp q, Walk, walks]

private theorem subset (h : StrongPartition adjacency components)
    (h' : StrongPartition adjacency components') : components ⊆ components' := by
  intro c hc
  have hp := headD_mem (h.ne_nil c hc)
  obtain ⟨c', hc', hp'⟩ := List.mem_flatten.mp (h'.mem_flatten.mpr (h.lt_of_mem hc hp))
  have members : ∀ q, q ∈ c ↔ q ∈ c' := fun q =>
    (h.strong c hc _ hp q).trans (h'.strong c' hc' _ hp' q).symm
  have perm : c.Perm c' := (List.perm_ext_iff_of_nodup ((h.sorted c hc).imp Nat.ne_of_lt)
    ((h'.sorted c' hc').imp Nat.ne_of_lt)).mpr members
  have same : c = c' := perm.eq_of_pairwise
    (fun p q _ _ lt gt => absurd (Nat.lt_trans lt gt) (Nat.lt_irrefl p))
    (h.sorted c hc) (h'.sorted c' hc')
  exact same ▸ hc'

theorem unique (h : StrongPartition adjacency components)
    (h' : StrongPartition adjacency components') : components = components' := by
  have nodup : ∀ {components}, StrongPartition adjacency components → components.Nodup :=
    fun partition => partition.heads.imp fun lt same =>
      Nat.ne_of_lt lt (congrArg (List.headD · 0) same)
  have perm : components.Perm components' := (List.perm_ext_iff_of_nodup (nodup h)
    (nodup h')).mpr fun c => ⟨fun hc => h.subset h' hc, fun hc => h'.subset h hc⟩
  exact perm.eq_of_pairwise
    (fun c d _ _ lt gt => absurd (Nat.lt_trans lt gt) (Nat.lt_irrefl _)) h.heads h'.heads

end StrongPartition

private theorem strongPartition_run {adjacency : List (List Nat)} (bounded : Bounded adjacency) :
    StrongPartition adjacency (stableSort (fun c d => decide (c.headD 0 < d.headD 0))
      ((Search.start adjacency.length).run adjacency).components.reverse) := by
  obtain ⟨invariant, done⟩ := (Search.Invariant.start adjacency).run bounded
  generalize Search.run adjacency (Search.start adjacency.length) = s at invariant done
  have consistent := invariant.consistent
  have reordered := (stableSort_perm (fun c d : List Nat => decide (c.headD 0 < d.headD 0))
    s.components.reverse).trans (List.reverse_perm _)
  have distinct : s.components.flatten.Nodup := consistent.nodup.of_append_right
  have from_search : ∀ {c}, c ∈ stableSort (fun c d : List Nat => decide (c.headD 0 < d.headD 0))
      s.components.reverse → c ∈ s.components := fun hc => reordered.mem_iff.mp hc
  refine
    { perm := reordered.flatten.trans ?_
      ne_nil := fun c hc => consistent.component_ne_nil c (from_search hc)
      sorted := fun c hc => consistent.component_sorted c (from_search hc)
      strong := fun c hc => consistent.strong c (from_search hc)
      heads := ?_ }
  · refine (List.perm_ext_iff_of_nodup distinct List.nodup_range).mpr fun p => ?_
    rw [invariant.mem_components_iff done, List.mem_range]
  · have sorted := pairwise_le_stableSort (fun c : List Nat => c.headD 0) s.components.reverse
    have disjoint := (List.nodup_flatten.mp (reordered.flatten.nodup_iff.mpr distinct)).2
    refine (sorted.and disjoint).imp_of_mem fun {c d} hc hd both => ?_
    refine Nat.lt_of_le_of_ne both.1 fun same => ?_
    refine both.2 (headD_mem (consistent.component_ne_nil c (from_search hc))) ?_
    rw [same]
    exact headD_mem (consistent.component_ne_nil d (from_search hd))

variable {V E : Type} {g : Digraph V E}

theorem WellFormed.strongPartition (h : g.WellFormed) :
    StrongPartition g.adjacency g.componentPositions := by
  have := strongPartition_run h.bounded
  rwa [h.length_adjacency] at this

private theorem WellFormed.lt_order_of_mem (h : g.WellFormed) {ps : List Nat}
    (hps : ps ∈ g.componentPositions) : ∀ p ∈ ps, p < g.order :=
  fun _ hp => h.length_adjacency ▸ h.strongPartition.lt_of_mem hps hp

/-! From positions to vertices. -/

theorem verticesAt_range (g : Digraph V E) : g.verticesAt (List.range g.order) = g.vertices :=
  filterMap_range_getElem? g.vertices

theorem length_verticesAt {ps : List Nat} (inside : ∀ p ∈ ps, p < g.order) :
    (g.verticesAt ps).length = ps.length := by
  induction ps with
  | nil => rfl
  | cons p ps ih =>
    have first : p < g.vertices.length := inside p List.mem_cons_self
    have rest := ih fun q hq => inside q (List.mem_cons_of_mem _ hq)
    rw [verticesAt, List.filterMap_cons, List.getElem?_eq_getElem first]
    exact congrArg (· + 1) rest

private theorem flatten_components (g : Digraph V E) :
    g.components.flatten = g.verticesAt g.componentPositions.flatten := by
  unfold components verticesAt
  exact List.filterMap_flatten.symm

theorem WellFormed.components_perm (h : g.WellFormed) : g.components.flatten.Perm g.vertices := by
  have perm := h.strongPartition.perm.filterMap (g.vertices[·]?)
  rw [h.length_adjacency] at perm
  rw [flatten_components]
  exact perm.trans (.of_eq (verticesAt_range g))

private theorem verticesAt_sublist {ps : List Nat} (increasing : ps.Pairwise (· < ·))
    (inside : ∀ p ∈ ps, p < g.order) : (g.verticesAt ps).Sublist g.vertices := by
  have sublist := (sublist_range increasing inside).filterMap (g.vertices[·]?)
  rwa [show (List.range g.order).filterMap (g.vertices[·]?) = g.vertices from
    verticesAt_range g] at sublist

theorem WellFormed.component_sublist (h : g.WellFormed) :
    ∀ c ∈ g.components, c.Sublist g.vertices := by
  intro c hc
  obtain ⟨ps, hps, rfl⟩ := List.mem_map.mp hc
  exact verticesAt_sublist (h.strongPartition.sorted ps hps) (h.lt_order_of_mem hps)

private theorem head?_verticesAt {ps : List Nat} (inside : ∀ p ∈ ps, p < g.order) (ne : ps ≠ []) :
    (g.verticesAt ps).head? = g.vertices[ps.headD 0]? := by
  cases ps with
  | nil => exact absurd rfl ne
  | cons p ps =>
    have first : p < g.vertices.length := inside p List.mem_cons_self
    simp [verticesAt, first]

theorem WellFormed.component_ne_nil (h : g.WellFormed) : ∀ c ∈ g.components, c ≠ [] := by
  intro c hc
  obtain ⟨ps, hps, rfl⟩ := List.mem_map.mp hc
  have inside := h.lt_order_of_mem hps
  have ne := h.strongPartition.ne_nil ps hps
  intro empty
  have head := head?_verticesAt inside ne
  rw [empty, List.getElem?_eq_getElem (inside _ (headD_mem ne))] at head
  cases head

theorem WellFormed.heads_sublist (h : g.WellFormed) :
    (g.components.filterMap List.head?).Sublist g.vertices := by
  have partition := h.strongPartition
  have heads : g.components.filterMap List.head? =
      g.verticesAt (g.componentPositions.map (·.headD 0)) := by
    rw [components, verticesAt, List.filterMap_map, List.filterMap_map]
    refine List.filterMap_congr fun ps hps => ?_
    exact head?_verticesAt (h.lt_order_of_mem hps) (partition.ne_nil ps hps)
  rw [heads]
  refine verticesAt_sublist (List.pairwise_map.mpr partition.heads) fun p hp => ?_
  obtain ⟨ps, hps, rfl⟩ := List.mem_map.mp hp
  exact h.lt_order_of_mem hps _ (headD_mem (partition.ne_nil ps hps))

theorem length_components (g : Digraph V E) :
    g.components.length = g.componentPositions.length := List.length_map ..

theorem WellFormed.components_nodup (h : g.WellFormed) : g.components.Nodup := by
  have distinct := h.components_perm.nodup_iff.mpr h.vertices_nodup
  refine (List.nodup_flatten.mp distinct).2.imp_of_mem fun {c d} hc _ disjoint same => ?_
  obtain ⟨v, hv⟩ := List.exists_mem_of_ne_nil c (h.component_ne_nil c hc)
  exact disjoint hv (same ▸ hv)

theorem WellFormed.component_unique (h : g.WellFormed) {c d : List V} (hc : c ∈ g.components)
    (hd : d ∈ g.components) {v : V} (hvc : v ∈ c) (hvd : v ∈ d) : c = d := by
  have distinct := h.components_perm.nodup_iff.mpr h.vertices_nodup
  have symmetric : Std.Symm (List.Disjoint : List V → List V → Prop) :=
    ⟨fun _ _ disjoint _ hd hc => disjoint hc hd⟩
  by_contra different
  exact (List.nodup_flatten.mp distinct).2.forall hc hd different hvc hvd

variable [DecidableEq V]

namespace WellFormed

theorem mem_verticesAt (h : g.WellFormed) {ps : List Nat} {v : V} :
    v ∈ g.verticesAt ps ↔ v ∈ g.vertices ∧ g.position v ∈ ps := by
  rw [verticesAt, List.mem_filterMap]
  constructor
  · rintro ⟨p, hp, found⟩
    exact ⟨List.mem_of_getElem? found, h.position_eq found ▸ hp⟩
  · rintro ⟨hv, hp⟩
    exact ⟨_, hp, getElem?_position hv⟩

theorem nodup_verticesAt (h : g.WellFormed) {ps : List Nat} (distinct : ps.Nodup) :
    (g.verticesAt ps).Nodup :=
  distinct.filterMap fun _ _ _ hp hq => (h.position_eq hp).symm.trans (h.position_eq hq)

theorem mem_of_reaches (h : g.WellFormed) {v w : V} (hv : v ∈ g.vertices)
    (reaches : g.Reaches v w) : w ∈ g.vertices := by
  rcases reflTransGen_iff_eq_or_transGen.mp reaches with rfl | walk
  · exact hv
  · have inside := h.bounded.lt_of_transGen (h.transGen_iff.mp walk)
    exact position_lt_order_iff.mp (h.length_adjacency ▸ inside)

theorem mutual_iff_walks (h : g.WellFormed) {v w : V} (hv : v ∈ g.vertices)
    (hw : w ∈ g.vertices) :
    g.Mutual v w ↔ Walk g.adjacency (g.position v) (g.position w) ∧
      Walk g.adjacency (g.position w) (g.position v) :=
  and_congr (h.reaches_iff_walk hv) (h.reaches_iff_walk hw)

/-- Two vertices are in one component exactly when each is reached from the other. -/
theorem exists_component_iff_mutual (h : g.WellFormed) {v w : V} (hv : v ∈ g.vertices) :
    (∃ c ∈ g.components, v ∈ c ∧ w ∈ c) ↔ g.Mutual v w := by
  have partition := h.strongPartition
  constructor
  · rintro ⟨c, hc, hvc, hwc⟩
    obtain ⟨ps, hps, rfl⟩ := List.mem_map.mp hc
    obtain ⟨-, hp⟩ := h.mem_verticesAt.mp hvc
    obtain ⟨hw, hq⟩ := h.mem_verticesAt.mp hwc
    exact (h.mutual_iff_walks hv hw).mpr ((partition.strong ps hps _ hp _).mp hq)
  · intro mutual_
    have hw := h.mem_of_reaches hv mutual_.1
    have inside : g.position v < g.adjacency.length :=
      h.length_adjacency ▸ position_lt_order_iff.mpr hv
    obtain ⟨ps, hps, hp⟩ := List.mem_flatten.mp (partition.mem_flatten.mpr inside)
    have hq := (partition.strong ps hps _ hp _).mpr ((h.mutual_iff_walks hv hw).mp mutual_)
    exact ⟨g.verticesAt ps, List.mem_map_of_mem hps, h.mem_verticesAt.mpr ⟨hv, hp⟩,
      h.mem_verticesAt.mpr ⟨hw, hq⟩⟩

theorem mem_component_iff_mutual (h : g.WellFormed) {c : List V} (hc : c ∈ g.components) {v w : V}
    (hv : v ∈ c) : w ∈ c ↔ g.Mutual v w := by
  rw [← h.exists_component_iff_mutual ((h.component_sublist c hc).subset hv)]
  constructor
  · intro hw
    exact ⟨c, hc, hv, hw⟩
  · rintro ⟨d, hd, hvd, hwd⟩
    exact h.component_unique hd hc hvd hv ▸ hwd

end WellFormed

end ObjectRelational.Digraph
