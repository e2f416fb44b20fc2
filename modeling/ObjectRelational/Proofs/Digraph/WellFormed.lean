import Mathlib.Data.List.Nodup
import Mathlib.Data.List.Count
import ObjectRelational.Proofs.Digraph.Reachability

set_option autoImplicit false
set_option relaxedAutoImplicit false

/-!
What the operations on a graph keep true: distinct vertices with a row each, arcs that end at
vertices and at most once for a pair, and counts of the arcs that end at each vertex.
-/

namespace ObjectRelational.Digraph

open Relation

variable {V E : Type}

structure WellFormed (g : Digraph V E) : Prop where
  vertices_nodup : g.vertices.Nodup
  length_adjacency : g.adjacency.length = g.order
  bounded : Bounded g.adjacency
  simple : ∀ row ∈ g.adjacency, row.Nodup
  indegrees_eq : g.indegrees = (List.range g.order).map fun p => g.adjacency.flatten.count p

theorem WellFormed.row_nodup {g : Digraph V E} (h : g.WellFormed) (p : Nat) :
    (g.adjacency[p]?.getD []).Nodup := by
  cases hp : g.adjacency[p]? with
  | none => exact List.nodup_nil
  | some row => exact h.simple row (List.mem_of_getElem? hp)

theorem WellFormed.length_rows {g : Digraph V E} (h : g.WellFormed) :
    g.rows.length = g.order := by
  rw [← Digraph.length_adjacency, h.length_adjacency]

def addLead (adjacency : List (List Nat)) (origin destination : Nat) : List (List Nat) :=
  adjacency.modify origin (· ++ [destination])

section AddLead

variable {adjacency : List (List Nat)} {origin destination : Nat}

@[simp] private theorem length_addLead :
    (addLead adjacency origin destination).length = adjacency.length := by simp [addLead]

private theorem leads_addLead (inside : origin < adjacency.length) (p q : Nat) :
    Leads (addLead adjacency origin destination) p q ↔
      Leads adjacency p q ∨ (p = origin ∧ q = destination) := by
  by_cases same : p = origin
  · subst same
    simp [Leads, addLead, inside]
  · simp [Leads, addLead, List.getElem?_modify_ne _ _ (Ne.symm same), same]

private theorem count_flatten_addLead (inside : origin < adjacency.length) (p : Nat) :
    (addLead adjacency origin destination).flatten.count p =
      adjacency.flatten.count p + if p = destination then 1 else 0 := by
  unfold addLead
  induction adjacency generalizing origin with
  | nil => simp at inside
  | cons row rows ih =>
    cases origin with
    | zero =>
      simp only [List.modify_zero_cons, List.flatten_cons, List.count_append,
        List.count_singleton, beq_iff_eq, eq_comm (a := destination)]
      omega
    | succ origin =>
      have rest := ih (Nat.lt_of_succ_lt_succ inside)
      simp only [List.modify_succ_cons, List.flatten_cons, List.count_append, rest]
      omega

theorem length_flatten_addLead (inside : origin < adjacency.length) :
    (addLead adjacency origin destination).flatten.length = adjacency.flatten.length + 1 := by
  unfold addLead
  induction adjacency generalizing origin with
  | nil => simp at inside
  | cons row rows ih =>
    cases origin with
    | zero =>
      simp only [List.modify_zero_cons, List.flatten_cons, List.length_append,
        List.length_singleton]
      omega
    | succ origin =>
      have rest := ih (Nat.lt_of_succ_lt_succ inside)
      simp only [List.modify_succ_cons, List.flatten_cons, List.length_append, rest]
      omega

private theorem map_range_modify (count : Nat → Nat) (n : Nat) :
    ((List.range n).map count).modify destination (· + 1) =
      (List.range n).map fun p => count p + if p = destination then 1 else 0 := by
  apply List.ext_getElem?
  intro p
  rw [List.getElem?_modify, List.getElem?_map, List.getElem?_map]
  by_cases inside : p < n
  · by_cases same : destination = p
    · simp [inside, same]
    · simp [inside, same, Ne.symm same]
  · simp [Nat.le_of_not_lt inside]

private theorem nodup_of_mem_addLead (simple : ∀ row ∈ adjacency, row.Nodup)
    (new : ¬ Leads adjacency origin destination) :
    ∀ row ∈ addLead adjacency origin destination, row.Nodup := by
  intro row member
  obtain ⟨p, hp⟩ := List.mem_iff_getElem?.mp member
  rw [addLead, List.getElem?_modify] at hp
  obtain ⟨old, hold, rfl⟩ := Option.map_eq_some_iff.mp hp
  have nodup := simple old (List.mem_of_getElem? hold)
  by_cases same : origin = p
  · subst same
    have absent : destination ∉ old := by simpa [Leads, hold] using new
    simpa [List.nodup_append, nodup] using fun x hx => by rintro rfl; exact absent hx
  · simpa [same] using nodup

end AddLead

section Operations

variable {g : Digraph V E} {origin destination : Nat}

private theorem row_adjustArcAt (f : E → E) (p : Nat) :
    (g.adjustArcAt origin destination f).row p =
      if p = origin then
        (g.row p).map fun arc =>
          if arc.destination = destination then { arc with label := f arc.label } else arc
      else g.row p := by
  simp only [row, adjustArcAt, List.getElem?_modify]
  by_cases same : origin = p
  · subst same
    cases g.rows[origin]? <;> simp
  · cases g.rows[p]? <;> simp [same, Ne.symm same]

@[simp] theorem adjacency_adjustArcAt (f : E → E) :
    (g.adjustArcAt origin destination f).adjacency = g.adjacency := by
  apply List.ext_getElem?
  intro p
  simp only [adjacency, adjustArcAt, List.getElem?_map, List.getElem?_modify]
  cases g.rows[p]? with
  | none => rfl
  | some row =>
    by_cases same : origin = p
    · have kept : ∀ arc : Arc E, (if arc.destination = destination then
          { arc with label := f arc.label } else arc).destination = arc.destination := by
        intro arc
        split <;> rfl
      simp [same, kept]
    · simp [same]

theorem adjacency_putArcAt (g : Digraph V E) (origin destination : Nat) (label : E) :
    (g.putArcAt origin destination label).adjacency =
      if (g.labelAt? origin destination).isSome then g.adjacency
      else addLead g.adjacency origin destination := by
  unfold putArcAt
  split
  · rw [adjacency_adjustArcAt]
  · apply List.ext_getElem?
    intro p
    simp only [adjacency, addLead, List.getElem?_map, List.getElem?_modify]
    cases g.rows[p]? with
    | none => rfl
    | some row => by_cases same : origin = p <;> simp [same]

theorem labelAt?_adjustArcAt (f : E → E) (p q : Nat) :
    (g.adjustArcAt origin destination f).labelAt? p q =
      if p = origin ∧ q = destination then (g.labelAt? p q).map f else g.labelAt? p q := by
  rw [labelAt?, row_adjustArcAt]
  by_cases same : p = origin
  · have kept : (fun arc : Arc E => arc.destination == q) ∘ (fun arc =>
        if arc.destination = destination then { arc with label := f arc.label } else arc) =
        fun arc => arc.destination == q := by
      funext arc
      simp only [Function.comp_apply]
      split <;> rfl
    rw [if_pos same, List.find?_map, kept, labelAt?]
    cases found : (g.row p).find? (·.destination == q) with
    | none => simp
    | some arc =>
      have ends : arc.destination = q := by simpa using List.find?_some found
      simp only [Option.map_some, same, true_and, ends]
      split <;> rfl
  · rw [if_neg same, if_neg (fun both => same both.1), labelAt?]

theorem labelAt?_putArcAt (inside : origin < g.rows.length) (label : E) (p q : Nat) :
    (g.putArcAt origin destination label).labelAt? p q =
      if p = origin ∧ q = destination then some label else g.labelAt? p q := by
  unfold putArcAt
  split
  · rename_i present
    rw [labelAt?_adjustArcAt]
    refine if_ctx_congr Iff.rfl (fun both => ?_) fun _ => rfl
    obtain ⟨old, hold⟩ := Option.isSome_iff_exists.mp present
    rw [both.1, both.2, hold]
    rfl
  · rename_i absent
    have nothing : g.labelAt? origin destination = none := by simpa using absent
    simp only [labelAt?, row, List.getElem?_modify] at nothing ⊢
    by_cases same : p = origin
    · subst same
      rw [List.getElem?_eq_getElem inside] at nothing ⊢
      simp only [Option.getD_some, Option.map_eq_none_iff] at nothing
      by_cases ends : destination = q
      · subst ends
        simp [nothing]
      · simp [ends, Ne.symm ends]
    · simp [same, Ne.symm same]

theorem labelAt?_appendArcAt {g : Digraph V (List E)} (inside : origin < g.rows.length)
    (label : List E) (p q : Nat) :
    (g.appendArcAt origin destination label).labelAt? p q =
      if p = origin ∧ q = destination then some ((g.labelAt? p q).getD [] ++ label)
      else g.labelAt? p q := by
  unfold appendArcAt
  split
  · rename_i present
    rw [labelAt?_adjustArcAt]
    refine if_ctx_congr Iff.rfl (fun both => ?_) fun _ => rfl
    obtain ⟨old, hold⟩ := Option.isSome_iff_exists.mp present
    rw [both.1, both.2, hold]
    rfl
  · rename_i absent
    have nothing : g.labelAt? origin destination = none := by simpa using absent
    rw [labelAt?_putArcAt inside]
    refine if_ctx_congr Iff.rfl (fun both => ?_) fun _ => rfl
    rw [both.1, both.2, nothing]
    rfl

theorem vertices_appendArcAt (g : Digraph V (List E)) (origin destination : Nat)
    (label : List E) : (g.appendArcAt origin destination label).vertices = g.vertices := by
  unfold appendArcAt putArcAt
  split <;> rfl

namespace WellFormed

private theorem congr {F : Type} {g' : Digraph V F} (h : g.WellFormed)
    (vertices : g'.vertices = g.vertices) (adjacency : g'.adjacency = g.adjacency)
    (indegrees : g'.indegrees = g.indegrees) : g'.WellFormed where
  vertices_nodup := vertices ▸ h.vertices_nodup
  length_adjacency := by rw [adjacency, h.length_adjacency, order, order, vertices]
  bounded := adjacency ▸ h.bounded
  simple := adjacency ▸ h.simple
  indegrees_eq := by rw [indegrees, h.indegrees_eq, order, order, vertices, adjacency]

theorem empty : ({} : Digraph V E).WellFormed where
  vertices_nodup := List.nodup_nil
  length_adjacency := rfl
  bounded := fun p q leads => by simp [Leads, adjacency] at leads
  simple := fun row member => by simp [adjacency] at member
  indegrees_eq := rfl

private theorem adjustArcAt (h : g.WellFormed) (origin destination : Nat) (f : E → E) :
    (g.adjustArcAt origin destination f).WellFormed :=
  h.congr rfl (adjacency_adjustArcAt f) rfl

theorem putArcAt (h : g.WellFormed) (horigin : origin < g.order)
    (hdestination : destination < g.order) (label : E) :
    (g.putArcAt origin destination label).WellFormed := by
  have adjacency_eq := adjacency_putArcAt g origin destination label
  by_cases present : (g.labelAt? origin destination).isSome
  · have same : g.putArcAt origin destination label =
        g.adjustArcAt origin destination fun _ => label := if_pos present
    rw [same]
    exact h.adjustArcAt _ _ _
  have absent : ¬ Leads g.adjacency origin destination := mt isSome_labelAt?_iff.mpr present
  rw [if_neg present] at adjacency_eq
  have inside : origin < g.adjacency.length := h.length_adjacency.symm ▸ horigin
  have changed : g.putArcAt origin destination label =
      { g with
        rows := g.rows.modify origin (· ++ [⟨destination, label⟩])
        indegrees := g.indegrees.modify destination (· + 1) } := if_neg present
  have vertices : (g.putArcAt origin destination label).vertices = g.vertices := by rw [changed]
  refine
    { vertices_nodup := vertices ▸ h.vertices_nodup
      length_adjacency := ?_
      bounded := ?_
      simple := ?_
      indegrees_eq := ?_ }
  · rw [adjacency_eq, length_addLead, h.length_adjacency, order, order, vertices]
  · intro p q leads
    rw [adjacency_eq] at leads ⊢
    rw [length_addLead]
    rcases (leads_addLead inside p q).mp leads with leads | ⟨-, rfl⟩
    · exact h.bounded p q leads
    · exact h.length_adjacency.symm ▸ hdestination
  · rw [adjacency_eq]
    exact nodup_of_mem_addLead h.simple absent
  · rw [adjacency_eq, order, vertices, changed]
    simp only [h.indegrees_eq, map_range_modify, count_flatten_addLead inside]
    rfl

theorem appendArcAt {g : Digraph V (List E)} (h : g.WellFormed) (horigin : origin < g.order)
    (hdestination : destination < g.order) (label : List E) :
    (g.appendArcAt origin destination label).WellFormed := by
  unfold Digraph.appendArcAt
  split
  · exact h.adjustArcAt _ _ _
  · exact h.putArcAt horigin hdestination label

end WellFormed

end Operations

/-! Vertices and their positions. -/

section Positions

variable [DecidableEq V] {g : Digraph V E} {v w : V}

theorem position_lt_order_iff : g.position v < g.order ↔ v ∈ g.vertices := List.idxOf_lt_length_iff

theorem getElem?_position (hv : v ∈ g.vertices) : g.vertices[g.position v]? = some v := by
  rw [List.getElem?_eq_getElem (position_lt_order_iff.mpr hv)]
  exact congrArg some (List.getElem_idxOf _)

theorem position_injective (hv : v ∈ g.vertices) (same : g.position v = g.position w) : v = w := by
  have hw : w ∈ g.vertices := position_lt_order_iff.mp (same ▸ position_lt_order_iff.mpr hv)
  have := getElem?_position hw
  rw [← same, getElem?_position hv] at this
  exact Option.some.inj this

namespace WellFormed

theorem position_eq (h : g.WellFormed) {p : Nat} (hp : g.vertices[p]? = some v) :
    g.position v = p := by
  obtain ⟨inside, rfl⟩ := List.getElem?_eq_some_iff.mp hp
  exact h.vertices_nodup.idxOf_getElem p inside

theorem mem_of_hasArc (h : g.WellFormed) (arc : g.hasArc v w = true) :
    v ∈ g.vertices ∧ w ∈ g.vertices := by
  have leads := hasArc_iff_leads.mp arc
  rw [← position_lt_order_iff, ← position_lt_order_iff, ← h.length_adjacency]
  exact ⟨leads.origin_lt, h.bounded _ _ leads⟩

theorem exists_position_eq (h : g.WellFormed) {p : Nat} (inside : p < g.adjacency.length) :
    ∃ v ∈ g.vertices, g.position v = p := by
  rw [h.length_adjacency] at inside
  exact ⟨_, List.getElem_mem inside, h.position_eq (List.getElem?_eq_getElem inside)⟩

private theorem exists_of_transGen (h : g.WellFormed) {q : Nat}
    (walk : TransGen (Leads g.adjacency) (g.position v) q) :
    ∃ w ∈ g.vertices, g.position w = q ∧ TransGen (fun v w => g.hasArc v w = true) v w := by
  induction walk with
  | single leads =>
    obtain ⟨w, hw, rfl⟩ := h.exists_position_eq (h.bounded _ _ leads)
    exact ⟨w, hw, rfl, .single (hasArc_iff_leads.mpr leads)⟩
  | tail _ leads ih =>
    obtain ⟨u, -, rfl, walk⟩ := ih
    obtain ⟨w, hw, rfl⟩ := h.exists_position_eq (h.bounded _ _ leads)
    exact ⟨w, hw, rfl, walk.tail (hasArc_iff_leads.mpr leads)⟩

theorem transGen_iff (h : g.WellFormed) :
    TransGen (fun v w => g.hasArc v w = true) v w ↔
      TransGen (Leads g.adjacency) (g.position v) (g.position w) := by
  constructor
  · exact TransGen.lift g.position (fun _ _ arc => hasArc_iff_leads.mp arc) v w
  · intro walk
    obtain ⟨u, hu, same, walk⟩ := h.exists_of_transGen walk
    rwa [position_injective hu same] at walk

theorem reaches_iff_walk (h : g.WellFormed) (hv : v ∈ g.vertices) :
    g.Reaches v w ↔ Walk g.adjacency (g.position v) (g.position w) := by
  rw [Reaches, Walk, reflTransGen_iff_eq_or_transGen, reflTransGen_iff_eq_or_transGen,
    h.transGen_iff]
  refine or_congr_left ⟨fun same => by rw [same], fun same => ?_⟩
  exact (position_injective hv same.symm).symm

end WellFormed

end Positions

/-! Adding vertices and arcs by value. -/

section Values

variable [DecidableEq V] {g : Digraph V E}

theorem adjacency_addVertex (g : Digraph V E) (v : V) :
    (g.addVertex v).adjacency = if v ∈ g.vertices then g.adjacency else g.adjacency ++ [[]] := by
  unfold addVertex
  split
  · rfl
  · simp [adjacency]

private theorem row_addVertex (g : Digraph V E) (v : V) (p : Nat) :
    (g.addVertex v).row p = g.row p := by
  unfold addVertex
  split
  · rfl
  · simp only [row, List.getElem?_append]
    split
    · rfl
    · rename_i outside
      rw [List.getElem?_eq_none (Nat.le_of_not_lt outside), List.getElem?_singleton]
      split <;> rfl

theorem labelAt?_addVertex (g : Digraph V E) (v : V) (p q : Nat) :
    (g.addVertex v).labelAt? p q = g.labelAt? p q := by
  rw [labelAt?, row_addVertex]
  rfl

theorem vertices_addVertex (g : Digraph V E) (v : V) :
    (g.addVertex v).vertices = if v ∈ g.vertices then g.vertices else g.vertices ++ [v] := by
  unfold addVertex
  split <;> rfl

theorem mem_vertices_addVertex {v w : V} :
    w ∈ (g.addVertex v).vertices ↔ w ∈ g.vertices ∨ w = v := by
  rw [vertices_addVertex]
  split
  · rename_i present
    exact ⟨.inl, fun h => h.elim id fun same => same ▸ present⟩
  · simp

private theorem leads_append_nil {adjacency : List (List Nat)} {p q : Nat} :
    Leads (adjacency ++ [[]]) p q ↔ Leads adjacency p q := by
  rcases Nat.lt_trichotomy p adjacency.length with inside | rfl | outside
  · simp [Leads, List.getElem?_append_left inside]
  · simp [Leads]
  · have below : (adjacency ++ [[]]).length ≤ p := by
      rw [List.length_append]
      exact outside
    rw [Leads, Leads, List.getElem?_eq_none below, List.getElem?_eq_none (Nat.le_of_lt outside)]

theorem ofVertices_induction {P : Digraph V E → Prop} (empty : P {})
    (add : ∀ {g} (v : V), P g → P (g.addVertex v)) (vs : List V) : P (ofVertices vs) := by
  have fold : ∀ (vs : List V) {g : Digraph V E}, P g → P (vs.foldl addVertex g) := by
    intro vs
    induction vs with
    | nil => exact id
    | cons v vs ih => exact fun h => ih (add v h)
  exact fold vs empty

namespace WellFormed

theorem addVertex (h : g.WellFormed) (v : V) : (g.addVertex v).WellFormed := by
  by_cases present : v ∈ g.vertices
  · have same : g.addVertex v = g := if_pos present
    rwa [same]
  have changed : g.addVertex v =
      ⟨g.vertices ++ [v], g.rows ++ [[]], g.indegrees ++ [0]⟩ := if_neg present
  have adjacency_eq : (g.addVertex v).adjacency = g.adjacency ++ [[]] :=
    (adjacency_addVertex g v).trans (if_neg present)
  have new_unled : (g.adjacency.flatten ++ []).count g.vertices.length = 0 := by
    rw [List.append_nil, List.count_eq_zero, mem_flatten_iff_exists_leads]
    rintro ⟨p, leads⟩
    have := h.bounded p _ leads
    rw [h.length_adjacency, order] at this
    omega
  refine
    { vertices_nodup := ?_
      length_adjacency := ?_
      bounded := ?_
      simple := ?_
      indegrees_eq := ?_ }
  · rw [changed]
    exact List.nodup_append.mpr ⟨h.vertices_nodup, by simp, by
      rintro u hu w hw rfl
      exact present (List.mem_singleton.mp hw ▸ hu)⟩
  · rw [adjacency_eq, changed]
    simpa [order] using h.length_adjacency
  · intro p q leads
    rw [adjacency_eq] at leads ⊢
    have := h.bounded p q (leads_append_nil.mp leads)
    rw [List.length_append]
    omega
  · intro row member
    rw [adjacency_eq] at member
    rcases List.mem_append.mp member with member | member
    · exact h.simple row member
    · exact List.mem_singleton.mp member ▸ List.nodup_nil
  · rw [adjacency_eq, changed]
    simp only [order, List.length_append, List.length_singleton, List.range_succ,
      List.map_append, List.map_singleton, List.flatten_append, List.flatten_singleton, new_unled]
    rw [h.indegrees_eq, List.append_nil]
    rfl

theorem putArc (h : g.WellFormed) (v w : V) (label : E) : (g.putArc v w label).WellFormed := by
  have both := (h.addVertex v).addVertex w
  refine both.putArcAt ?_ ?_ label
  · exact position_lt_order_iff.mpr
      (mem_vertices_addVertex.mpr (.inl (mem_vertices_addVertex.mpr (.inr rfl))))
  · exact position_lt_order_iff.mpr (mem_vertices_addVertex.mpr (.inr rfl))

theorem adjustArc (h : g.WellFormed) (v w : V) (f : E → E) : (g.adjustArc v w f).WellFormed :=
  h.adjustArcAt _ _ f

end WellFormed

end Values

/-! Arcs between vertices that are there. -/

section BetweenVertices

variable [DecidableEq V] {v w : V}

private theorem addVertex_addVertex {g : Digraph V E} (hv : v ∈ g.vertices) (hw : w ∈ g.vertices) :
    (g.addVertex v).addVertex w = g := by
  rw [addVertex, addVertex, if_pos hv, if_pos hw]

theorem putArc_eq {g : Digraph V E} (hv : v ∈ g.vertices) (hw : w ∈ g.vertices) (label : E) :
    g.putArc v w label = g.putArcAt (g.position v) (g.position w) label := by
  unfold putArc
  rw [addVertex_addVertex hv hw]

private theorem appendArc_eq {g : Digraph V (List E)} (hv : v ∈ g.vertices) (hw : w ∈ g.vertices)
    (label : List E) :
    g.appendArc v w label = g.appendArcAt (g.position v) (g.position w) label := by
  unfold appendArc appendArcAt putArc
  rw [addVertex_addVertex hv hw]
  rfl

theorem vertices_putArc {g : Digraph V E} (hv : v ∈ g.vertices) (hw : w ∈ g.vertices) (label : E) :
    (g.putArc v w label).vertices = g.vertices := by
  rw [putArc_eq hv hw, putArcAt]
  split <;> rfl

theorem vertices_appendArc {g : Digraph V (List E)} (hv : v ∈ g.vertices) (hw : w ∈ g.vertices)
    (label : List E) : (g.appendArc v w label).vertices = g.vertices := by
  rw [appendArc_eq hv hw, vertices_appendArcAt]

private theorem hasArc_of_labelAt? {g h : Digraph V E} (hv : v ∈ g.vertices) (hw : w ∈ g.vertices)
    (vertices : h.vertices = g.vertices)
    (labels : ∀ p q, ∃ label, h.labelAt? p q =
      if p = g.position v ∧ q = g.position w then some label else g.labelAt? p q) (x y : V) :
    h.hasArc x y = true ↔ g.hasArc x y = true ∨ (v = x ∧ w = y) := by
  have position : ∀ z, h.position z = g.position z := fun z =>
    congrArg (fun vs => List.idxOf z vs) vertices
  have same : g.position x = g.position v ∧ g.position y = g.position w ↔ v = x ∧ w = y := by
    constructor
    · rintro ⟨hx, hy⟩
      exact ⟨position_injective hv hx.symm, position_injective hw hy.symm⟩
    · rintro ⟨rfl, rfl⟩
      exact ⟨rfl, rfl⟩
  obtain ⟨label, found⟩ := labels (g.position x) (g.position y)
  rw [hasArc, label?, position, position, found]
  split
  · rename_i met
    exact iff_of_true rfl (.inr (same.mp met))
  · rename_i apart
    exact (or_iff_left (fun met => apart (same.mpr met))).symm

theorem WellFormed.hasArc_putArc {g : Digraph V E} (h : g.WellFormed) (hv : v ∈ g.vertices)
    (hw : w ∈ g.vertices) (label : E) (x y : V) :
    (g.putArc v w label).hasArc x y = true ↔ g.hasArc x y = true ∨ (v = x ∧ w = y) := by
  have inside : g.position v < g.rows.length :=
    h.length_rows.symm ▸ position_lt_order_iff.mpr hv
  refine hasArc_of_labelAt? hv hw (vertices_putArc hv hw label) (fun p q => ?_) x y
  rw [putArc_eq hv hw]
  exact ⟨_, labelAt?_putArcAt inside label p q⟩

theorem WellFormed.hasArc_appendArc {g : Digraph V (List E)} (h : g.WellFormed)
    (hv : v ∈ g.vertices) (hw : w ∈ g.vertices) (label : List E) (x y : V) :
    (g.appendArc v w label).hasArc x y = true ↔ g.hasArc x y = true ∨ (v = x ∧ w = y) := by
  have inside : g.position v < g.rows.length :=
    h.length_rows.symm ▸ position_lt_order_iff.mpr hv
  refine hasArc_of_labelAt? hv hw (vertices_appendArc hv hw label) (fun p q => ?_) x y
  rw [appendArc_eq hv hw]
  exact ⟨_, labelAt?_appendArcAt inside label p q⟩

end BetweenVertices

end ObjectRelational.Digraph
