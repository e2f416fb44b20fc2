import ObjectRelational.Proofs.Digraph.Layers
import ObjectRelational.Proofs.Order.StableSort

set_option autoImplicit false
set_option relaxedAutoImplicit false

/-!
What holds of the marks, the stack and the finished components in every state of a search: they
agree with each other, and every finished component is a class of mutually reachable vertices that
no arc leaves for an unfinished one. Entering a vertex and popping a component keep it.
-/

namespace ObjectRelational.Digraph.Search

open Relation
open ObjectRelational.Order

variable {adjacency : List (List Nat)} {s t : Search}

/-- Marks, stack and finished components fit together. -/
structure Consistent (adjacency : List (List Nat)) (s : Search) : Prop where
  length_index : s.index.length = adjacency.length
  length_lowlink : s.lowlink.length = adjacency.length
  length_onStack : s.onStack.length = adjacency.length
  nodup : (s.stack ++ s.components.flatten).Nodup
  entered_iff : ∀ v, s.Entered v ↔ v ∈ s.stack ∨ v ∈ s.components.flatten
  onStack_iff : ∀ v, s.isOnStack v = true ↔ v ∈ s.stack
  entry_lt : ∀ v, s.Entered v → s.entryOf v < s.entered
  descending : s.Descending s.stack
  closed : ∀ v ∈ s.components.flatten, ∀ w, Leads adjacency v w → w ∈ s.components.flatten
  strong : ∀ c ∈ s.components, ∀ v ∈ c, ∀ w,
    w ∈ c ↔ Walk adjacency v w ∧ Walk adjacency w v
  component_ne_nil : ∀ c ∈ s.components, c ≠ []
  component_sorted : ∀ c ∈ s.components, c.Pairwise (· < ·)

/-! Entering a vertex. -/

theorem isFresh_iff {v : Nat} : s.isFresh v = true ↔ s.index[v]? = some none := by
  simp [isFresh]

theorem not_entered_of_isFresh {v : Nat} (fresh : s.isFresh v = true) : ¬ s.Entered v := by
  rintro ⟨time, h⟩
  rw [isFresh_iff.mp fresh] at h
  cases h

theorem entered_of_isFresh_eq_false {v : Nat} (inside : v < s.index.length)
    (visited : s.isFresh v = false) : s.Entered v := by
  cases h : s.index[v] with
  | none =>
    have fresh : s.isFresh v = true := isFresh_iff.mpr (by rw [List.getElem?_eq_getElem inside, h])
    rw [visited] at fresh
    cases fresh
  | some time => exact ⟨time, by rw [List.getElem?_eq_getElem inside, h]⟩

theorem extends_enter (adjacency : List (List Nat)) (s : Search) {w : Nat}
    (fresh : s.isFresh w = true) : Extends s (s.enter adjacency w) := by
  refine ⟨fun v time h => ?_, fun _ h => h⟩
  have ne : w ≠ v := by
    rintro rfl
    exact not_entered_of_isFresh fresh ⟨time, h⟩
  simpa [enter, List.getElem?_set_ne ne] using h

theorem index_enter_self {w : Nat} (fresh : s.isFresh w = true) :
    (s.enter adjacency w).index[w]? = some (some s.entered) := by
  have inside := (List.getElem?_eq_some_iff.mp (isFresh_iff.mp fresh)).1
  simp [enter, inside]

theorem entered_enter {v w : Nat} (fresh : s.isFresh w = true) :
    (s.enter adjacency w).Entered v ↔ v = w ∨ s.Entered v := by
  constructor
  · rintro ⟨time, h⟩
    by_cases same : v = w
    · exact .inl same
    · exact .inr ⟨time, by simpa [enter, List.getElem?_set_ne (Ne.symm same)] using h⟩
  · rintro (rfl | h)
    · exact ⟨s.entered, index_enter_self fresh⟩
    · exact (extends_enter _ s fresh).entered h

private theorem isOnStack_enter {v w : Nat} (inside : w < s.onStack.length) :
    (s.enter adjacency w).isOnStack v = true ↔ v = w ∨ s.isOnStack v = true := by
  by_cases same : v = w
  · subst same
    simp [enter, isOnStack, inside]
  · simp [enter, isOnStack, List.getElem?_set_ne (Ne.symm same), same]

theorem lowlinkOf_enter_self {w : Nat} (inside : w < s.lowlink.length) :
    (s.enter adjacency w).lowlinkOf w = s.entered := by
  simp [enter, lowlinkOf, inside]

theorem lowlinkOf_enter_of_ne {v w : Nat} (ne : v ≠ w) :
    (s.enter adjacency w).lowlinkOf v = s.lowlinkOf v := by
  simp [enter, lowlinkOf, List.getElem?_set_ne ne.symm]

namespace Consistent

theorem entered_of_mem_stack (h : Consistent adjacency s) {v : Nat} (hv : v ∈ s.stack) :
    s.Entered v := (h.entered_iff v).mpr (.inl hv)

theorem lt_of_isFresh (h : Consistent adjacency s) {w : Nat} (fresh : s.isFresh w = true) :
    w < adjacency.length :=
  h.length_index ▸ (List.getElem?_eq_some_iff.mp (isFresh_iff.mp fresh)).1

private theorem mem_of_walk (h : Consistent adjacency s) {v w : Nat} (hv : v ∈ s.components.flatten)
    (walk : Walk adjacency v w) : w ∈ s.components.flatten := by
  induction walk with
  | refl => exact hv
  | tail _ arc ih => exact h.closed _ ih _ arc

theorem enter (h : Consistent adjacency s) {w : Nat} (fresh : s.isFresh w = true) :
    Consistent adjacency (s.enter adjacency w) := by
  have inside := h.lt_of_isFresh fresh
  have new := (h.entered_iff w).not.mp (not_entered_of_isFresh fresh)
  have entry_self : (s.enter adjacency w).entryOf w = s.entered :=
    entryOf_eq (index_enter_self fresh)
  have entry_old : ∀ v, s.Entered v → (s.enter adjacency w).entryOf v = s.entryOf v :=
    fun v hv => (extends_enter _ s fresh).entryOf hv
  refine
    { length_index := (List.length_set ..).trans h.length_index
      length_lowlink := (List.length_set ..).trans h.length_lowlink
      length_onStack := (List.length_set ..).trans h.length_onStack
      nodup := ?_
      entered_iff := ?_
      onStack_iff := ?_
      entry_lt := ?_
      descending := ?_
      closed := h.closed
      strong := h.strong
      component_ne_nil := h.component_ne_nil
      component_sorted := h.component_sorted }
  · change (w :: (s.stack ++ s.components.flatten)).Nodup
    exact List.nodup_cons.mpr ⟨by simpa using new, h.nodup⟩
  · intro v
    rw [entered_enter fresh, h.entered_iff v, ← or_assoc]
    exact or_congr List.mem_cons.symm Iff.rfl
  · intro v
    rw [isOnStack_enter (h.length_onStack ▸ inside), h.onStack_iff v]
    exact List.mem_cons.symm
  · intro v hv
    change _ < s.entered + 1
    rcases (entered_enter fresh).mp hv with rfl | hv
    · omega
    · have := h.entry_lt v hv
      rw [entry_old v hv]
      omega
  · refine List.pairwise_cons.mpr ⟨fun v hv => ?_, ?_⟩
    · rw [entry_self, entry_old v (h.entered_of_mem_stack hv)]
      exact h.entry_lt v (h.entered_of_mem_stack hv)
    · refine h.descending.imp_of_mem fun {a b} ha hb lt => ?_
      rw [entry_old a (h.entered_of_mem_stack ha), entry_old b (h.entered_of_mem_stack hb)]
      exact lt

theorem lower (h : Consistent adjacency s) (v bound : Nat) :
    Consistent adjacency (s.lower v bound) :=
  { h with length_lowlink := (List.length_set ..).trans h.length_lowlink }

end Consistent

/-! Closing a component. -/

private theorem popThrough_append {v : Nat} {above : List Nat} (below : List Nat) (hv : v ∉ above) :
    popThrough v (above ++ v :: below) = (above ++ [v], below) := by
  induction above with
  | nil => simp [popThrough]
  | cons x above ih =>
    obtain ⟨ne, hv⟩ := not_or.mp (List.mem_cons.not.mp hv)
    simp [popThrough, Ne.symm ne, ih hv]

private theorem getElem?_foldl_set_false (marks : List Bool) (members : List Nat) (v : Nat) :
    (members.foldl (fun marks w => marks.set w false) marks)[v]? =
      if v ∈ members then marks[v]?.map fun _ => false else marks[v]? := by
  induction members generalizing marks with
  | nil => simp
  | cons w members ih =>
    rw [List.foldl_cons, ih]
    by_cases same : v = w
    · subst same
      by_cases inside : v < marks.length
      · simp [inside]
      · simp [Nat.le_of_not_lt inside]
    · simp [List.getElem?_set_ne (Ne.symm same), same]

private theorem length_foldl_set_false (marks : List Bool) (members : List Nat) :
    (members.foldl (fun marks w => marks.set w false) marks).length = marks.length := by
  induction members generalizing marks with
  | nil => rfl
  | cons w members ih => rw [List.foldl_cons, ih, List.length_set]

/-- The members of the layer on top of the stack, as the component that they make. -/
def topComponent (above : List Nat) (v : Nat) : List Nat :=
  stableSort (fun p q => decide (p < q)) (above ++ [v])

private theorem mem_topComponent {above : List Nat} {v x : Nat} :
    x ∈ topComponent above v ↔ x ∈ above ∨ x = v := by
  simp [topComponent, mem_stableSort]

private theorem topComponent_perm (above : List Nat) (v : Nat) :
    (topComponent above v).Perm (above ++ [v]) := stableSort_perm _ _

private theorem topComponent_sorted {above : List Nat} {v : Nat} (distinct : (above ++ [v]).Nodup) :
    (topComponent above v).Pairwise (· < ·) := by
  have distinct := (topComponent_perm above v).nodup_iff.mpr distinct
  have sorted := pairwise_le_stableSort id (above ++ [v])
  exact (sorted.and distinct).imp fun h => Nat.lt_of_le_of_ne h.1 h.2

section Pop

variable {v : Nat} {above below : List Nat}

/-! A vertex cuts the stack into what was entered later and what was entered earlier. -/

theorem Consistent.not_mem_above (h : Consistent adjacency s)
    (hstack : s.stack = above ++ v :: below) : v ∉ above := by
  have distinct := h.descending.nodup
  rw [hstack] at distinct
  exact fun hv => (List.nodup_append.mp distinct).2.2 v hv v List.mem_cons_self rfl

private theorem Consistent.not_mem_below (h : Consistent adjacency s)
    (hstack : s.stack = above ++ v :: below) {u : Nat} (hu : u ∈ above ++ [v]) : u ∉ below := by
  have distinct := h.descending.nodup
  rw [hstack, List.append_cons above v below] at distinct
  exact fun below => (List.nodup_append.mp distinct).2.2 u hu u below rfl

theorem Consistent.entryOf_lt_of_mem_below (h : Consistent adjacency s)
    (hstack : s.stack = above ++ v :: below) : ∀ u ∈ below, s.entryOf u < s.entryOf v := by
  have descending := h.descending
  rw [hstack] at descending
  exact (List.pairwise_cons.mp (List.pairwise_append.mp descending).2.1).1

theorem Consistent.descending_below (h : Consistent adjacency s)
    (hstack : s.stack = above ++ v :: below) : s.Descending below := by
  have descending := h.descending
  rw [hstack] at descending
  exact (List.pairwise_cons.mp (List.pairwise_append.mp descending).2.1).2

theorem popComponent_eq (hstack : s.stack = above ++ v :: below) (hv : v ∉ above) :
    s.popComponent v =
      { s with
        stack := below
        onStack := (above ++ [v]).foldl (fun marks w => marks.set w false) s.onStack
        components := topComponent above v :: s.components } := by
  simp only [popComponent, hstack, popThrough_append below hv]
  rfl

private theorem stack_components_popComponent_perm (hstack : s.stack = above ++ v :: below) :
    (below ++ (topComponent above v :: s.components).flatten).Perm
      (s.stack ++ s.components.flatten) := by
  have top := (topComponent_perm above v).append_right s.components.flatten
  have swap : (below ++ ((above ++ [v]) ++ s.components.flatten)).Perm
      ((above ++ [v]) ++ (below ++ s.components.flatten)) := by
    simpa only [List.append_assoc] using List.perm_append_comm_assoc below (above ++ [v]) _
  rw [hstack, List.append_cons, List.append_assoc (above ++ [v]), List.flatten_cons]
  exact (top.append_left below).trans swap

private theorem isOnStack_popComponent (hstack : s.stack = above ++ v :: below) (hv : v ∉ above)
    (u : Nat) :
    (s.popComponent v).isOnStack u = true ↔ u ∉ above ++ [v] ∧ s.isOnStack u = true := by
  rw [popComponent_eq hstack hv, isOnStack, getElem?_foldl_set_false, isOnStack]
  by_cases member : u ∈ above ++ [v]
  · simp only [member, if_true, not_true_eq_false, false_and, iff_false]
    cases s.onStack[u]? <;> simp
  · simp only [member, if_false, not_false_eq_true, true_and]

private theorem Consistent.mem_topComponent_iff (h : Consistent adjacency s)
    (hstack : s.stack = above ++ v :: below)
    (mutual_ : ∀ x ∈ above, Walk adjacency v x ∧ Walk adjacency x v)
    (exits : ∀ x ∈ topComponent above v, ∀ w, Leads adjacency x w →
      w ∈ topComponent above v ∨ w ∈ s.components.flatten)
    {x : Nat} (hx : x ∈ topComponent above v) (w : Nat) :
    w ∈ topComponent above v ↔ Walk adjacency x w ∧ Walk adjacency w x := by
  have with_v : ∀ y ∈ topComponent above v, Walk adjacency v y ∧ Walk adjacency y v := by
    intro y hy
    rcases mem_topComponent.mp hy with hy | rfl
    · exact mutual_ y hy
    · exact ⟨.refl, .refl⟩
  constructor
  · intro hw
    exact ⟨(with_v x hx).2.trans (with_v w hw).1, (with_v w hw).2.trans (with_v x hx).1⟩
  · rintro ⟨forth, back⟩
    have stays : w ∈ topComponent above v ∨ w ∈ s.components.flatten := by
      clear back
      induction forth with
      | refl => exact .inl hx
      | tail _ arc ih =>
        rcases ih with ih | ih
        · exact exits _ ih _ arc
        · exact .inr (h.closed _ ih _ arc)
    refine stays.resolve_right fun finished => ?_
    have onStack : x ∈ s.stack := by
      rw [hstack]
      rcases mem_topComponent.mp hx with hx | rfl <;> simp [*]
    exact List.disjoint_of_nodup_append h.nodup onStack (h.mem_of_walk finished back)

theorem Consistent.popComponent (h : Consistent adjacency s)
    (hstack : s.stack = above ++ v :: below)
    (mutual_ : ∀ x ∈ above, Walk adjacency v x ∧ Walk adjacency x v)
    (exits : ∀ x ∈ topComponent above v, ∀ w, Leads adjacency x w →
      w ∈ topComponent above v ∨ w ∈ s.components.flatten) :
    Consistent adjacency (s.popComponent v) := by
  have hv := h.not_mem_above hstack
  have moved := stack_components_popComponent_perm hstack
  have onStack := isOnStack_popComponent hstack hv
  rw [popComponent_eq hstack hv] at onStack ⊢
  refine
    { length_index := h.length_index
      length_lowlink := h.length_lowlink
      length_onStack := (length_foldl_set_false _ _).trans h.length_onStack
      nodup := moved.nodup_iff.mpr h.nodup
      entered_iff := ?_
      onStack_iff := ?_
      entry_lt := h.entry_lt
      descending := h.descending_below hstack
      closed := ?_
      strong := ?_
      component_ne_nil := ?_
      component_sorted := ?_ }
  · intro u
    rw [← List.mem_append, moved.mem_iff, List.mem_append]
    exact h.entered_iff u
  · intro u
    rw [onStack, h.onStack_iff, hstack, List.append_cons above v below,
      List.mem_append (s := above ++ [v])]
    constructor
    · rintro ⟨out, member | member⟩
      · exact absurd member out
      · exact member
    · intro member
      exact ⟨fun hu => h.not_mem_below hstack hu member, .inr member⟩
  · intro x hx w arc
    rw [List.flatten_cons, List.mem_append] at hx ⊢
    rcases hx with hx | hx
    · exact exits x hx w arc
    · exact .inr (h.closed x hx w arc)
  · intro c hc x hx w
    rcases List.mem_cons.mp hc with rfl | hc
    · exact h.mem_topComponent_iff hstack mutual_ exits hx w
    · exact h.strong c hc x hx w
  · intro c hc
    rcases List.mem_cons.mp hc with rfl | hc
    · exact List.ne_nil_of_mem (mem_topComponent.mpr (.inr rfl))
    · exact h.component_ne_nil c hc
  · intro c hc
    rcases List.mem_cons.mp hc with rfl | hc
    · refine topComponent_sorted (List.Nodup.sublist ?_ h.descending.nodup)
      rw [hstack, List.append_cons above v below]
      exact List.sublist_append_left _ _
    · exact h.component_sorted c hc

theorem leave_outermost (noFrame : s.frames = []) :
    s.leave v = if s.lowlinkOf v = s.entryOf v then s.popComponent v else s := by
  simp only [leave, noFrame]

theorem leave_inner {parent : Frame} {outer : List Frame} (hframes : s.frames = parent :: outer)
    (ne : v ≠ parent.vertex) :
    s.leave v =
      if s.lowlinkOf v = s.entryOf v then (s.lower parent.vertex (s.lowlinkOf v)).popComponent v
      else s.lower parent.vertex (s.lowlinkOf v) := by
  simp only [leave, hframes, lowlinkOf_lower_of_ne s _ ne]
  rfl

/-- When the lowlink of a fully explored frame is its own entry time, arcs from its layer end in
the layer or in a finished component. -/
theorem Layer.exits (layer : Layer adjacency s ⟨v, []⟩ above below) (h : Consistent adjacency s)
    (hstack : s.stack = above ++ v :: below) (root : s.lowlinkOf v = s.entryOf v) :
    ∀ x ∈ topComponent above v, ∀ w, Leads adjacency x w →
      w ∈ topComponent above v ∨ w ∈ s.components.flatten := by
  intro x hx w arc
  have member : x ∈ v :: above := by
    rcases mem_topComponent.mp hx with hx | rfl <;> simp [*]
  rcases layer.explored x member w arc with ⟨-, absurd_⟩ | ⟨entered, finished | late⟩
  · cases absurd_
  · exact .inr finished
  · rcases (h.entered_iff w).mp entered with onStack | finished
    · refine .inl (mem_topComponent.mpr ?_)
      rw [hstack, List.mem_append, List.mem_cons] at onStack
      rcases onStack with onStack | rfl | onStack
      · exact .inl onStack
      · exact .inr rfl
      · have earlier := h.entryOf_lt_of_mem_below hstack w onStack
        change s.lowlinkOf v ≤ _ at late
        omega
    · exact .inr finished

end Pop

end ObjectRelational.Digraph.Search
