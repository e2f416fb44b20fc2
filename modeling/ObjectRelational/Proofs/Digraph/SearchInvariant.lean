import ObjectRelational.Proofs.Digraph.Consistency

set_option autoImplicit false
set_option relaxedAutoImplicit false

/-!
What holds in every state of a search: it is consistent, the stack falls into layers, one for each
frame, and every vertex was entered or is still to be tried as a root. Each kind of step keeps it,
so a run does.
-/

namespace ObjectRelational.Digraph.Search

open Relation

variable {adjacency : List (List Nat)} {s t : Search}

/-- Every vertex that was not entered is still to be tried as a root. -/
structure Invariant (adjacency : List (List Nat)) (s : Search) : Prop where
  consistent : Consistent adjacency s
  layered : Layered adjacency s s.frames s.stack
  roots : ∀ v < adjacency.length, v ∈ s.roots ∨ s.Entered v

/-- The ways in which a search goes on. -/
inductive Step (adjacency : List (List Nat)) (s : Search) : Search → Prop
  | enterRoot {root : Nat} {roots : List Nat} : s.frames = [] → s.roots = root :: roots →
      s.isFresh root = true → Step adjacency s (enter adjacency root { s with roots })
  | skipRoot {root : Nat} {roots : List Nat} : s.frames = [] → s.roots = root :: roots →
      s.isFresh root = false → Step adjacency s { s with roots }
  | descend {v w : Nat} {pending : List Nat} {frames : List Frame} :
      s.frames = ⟨v, w :: pending⟩ :: frames → s.isFresh w = true →
      Step adjacency s (enter adjacency w { s with frames := ⟨v, pending⟩ :: frames })
  | lookBack {v w : Nat} {pending : List Nat} {frames : List Frame} :
      s.frames = ⟨v, w :: pending⟩ :: frames → s.isFresh w = false → s.isOnStack w = true →
      Step adjacency s (lower v (s.entryOf w) { s with frames := ⟨v, pending⟩ :: frames })
  | lookAside {v w : Nat} {pending : List Nat} {frames : List Frame} :
      s.frames = ⟨v, w :: pending⟩ :: frames → s.isFresh w = false → s.isOnStack w = false →
      Step adjacency s { s with frames := ⟨v, pending⟩ :: frames }
  | leave {v : Nat} {frames : List Frame} : s.frames = ⟨v, []⟩ :: frames →
      Step adjacency s (leave v { s with frames })

theorem step_of_step? (h : s.step? adjacency = some t) : Step adjacency s t := by
  unfold step? at h
  split at h
  · rename_i noFrame
    split at h
    · cases h
    · rename_i root roots hroots
      injection h with h
      subst h
      split
      · rename_i fresh
        exact .enterRoot noFrame hroots fresh
      · rename_i fresh
        exact .skipRoot noFrame hroots (Bool.eq_false_iff.mpr fresh)
  · rename_i v w pending frames hframes
    injection h with h
    subst h
    split
    · rename_i fresh
      exact .descend hframes fresh
    · rename_i fresh
      have visited : s.isFresh w = false := Bool.eq_false_iff.mpr fresh
      split
      · rename_i onStack
        exact .lookBack hframes visited onStack
      · rename_i onStack
        exact .lookAside hframes visited (Bool.eq_false_iff.mpr onStack)
  · rename_i v frames hframes
    injection h with h
    subst h
    exact .leave hframes

/-! Each way to go on keeps the invariant. -/

private theorem Consistent.with_frames (h : Consistent adjacency s) (roots : List Nat)
    (frames : List Frame) : Consistent adjacency { s with roots, frames } :=
  { h with }

private theorem Consistent.layered_enter (h : Consistent adjacency s) {w : Nat}
    (fresh : s.isFresh w = true)
    (layered : Layered adjacency (s.enter adjacency w) s.frames s.stack)
    (arc : ∀ parent ∈ s.frames.head?, Leads adjacency parent.vertex w) :
    Layered adjacency (s.enter adjacency w) (s.enter adjacency w).frames
      (s.enter adjacency w).stack := by
  have lowlink : (s.enter adjacency w).lowlinkOf w = s.entered :=
    lowlinkOf_enter_self (h.length_lowlink ▸ h.lt_of_isFresh fresh)
  have entry : (s.enter adjacency w).entryOf w = s.entered :=
    entryOf_eq (index_enter_self fresh)
  change Layered adjacency _ (⟨w, adjacency[w]?.getD []⟩ :: s.frames) ([] ++ w :: s.stack)
  refine .cons ?_ arc layered
  refine ⟨by simp, by simp, fun _ hu => hu, ?_, ?_, ?_⟩
  · exact (lowlink.trans entry.symm).le
  · exact ⟨w, List.mem_cons_self, entry.trans lowlink.symm, .refl⟩
  · intro x hx u leads
    obtain rfl := List.mem_singleton.mp hx
    exact .inl ⟨rfl, leads⟩

private theorem Consistent.layered_of_enter (h : Consistent adjacency s) {w : Nat}
    (fresh : s.isFresh w = true) {frames : List Frame}
    (layered : Layered adjacency s frames s.stack) :
    Layered adjacency (s.enter adjacency w) frames s.stack := by
  refine layered.mono (extends_enter _ s fresh) (fun v hv => h.entered_of_mem_stack hv) ?_
  intro frame member
  refine lowlinkOf_enter_of_ne fun same => not_entered_of_isFresh fresh ?_
  exact same ▸ h.entered_of_mem_stack (layered.vertex_mem frame member)

private theorem Consistent.settled_enter (h : Consistent adjacency s) {v w : Nat}
    (fresh : s.isFresh w = true) (entered : s.Entered v) (le : s.lowlinkOf v ≤ s.entryOf v) :
    (s.enter adjacency w).Settled ((s.enter adjacency w).lowlinkOf v) w := by
  have ne : v ≠ w := by
    rintro rfl
    exact not_entered_of_isFresh fresh entered
  refine ⟨⟨s.entered, index_enter_self fresh⟩, .inr ?_⟩
  rw [entryOf_eq (index_enter_self fresh), lowlinkOf_enter_of_ne ne]
  exact le.trans (h.entry_lt v entered).le

namespace Invariant

private theorem entered_of_mem_stack (h : Invariant adjacency s) : ∀ v ∈ s.stack, s.Entered v :=
  fun _ hv => h.consistent.entered_of_mem_stack hv

theorem stack_eq_nil (h : Invariant adjacency s) (noFrame : s.frames = []) : s.stack = [] := by
  have layered := h.layered
  rw [noFrame] at layered
  exact layered.eq_nil

private theorem enterRoot (h : Invariant adjacency s) {root : Nat} {roots : List Nat}
    (noFrame : s.frames = []) (hroots : s.roots = root :: roots) (fresh : s.isFresh root = true) :
    Invariant adjacency (Search.enter adjacency root { s with roots }) := by
  have consistent : Consistent adjacency { s with roots } := { h.consistent with }
  refine ⟨consistent.enter fresh, consistent.layered_enter fresh ?_ (by simp [noFrame]), ?_⟩
  · change Layered _ _ s.frames s.stack
    rw [noFrame, h.stack_eq_nil noFrame]
    exact .nil
  · intro v hv
    rw [entered_enter (s := { s with roots }) fresh]
    rcases h.roots v hv with hv | hv
    · rw [hroots] at hv
      rcases List.mem_cons.mp hv with rfl | hv
      · exact .inr (.inl rfl)
      · exact .inl hv
    · exact .inr (.inr hv)

private theorem skipRoot (h : Invariant adjacency s) {root : Nat} {roots : List Nat}
    (hroots : s.roots = root :: roots) (visited : s.isFresh root = false) :
    Invariant adjacency { s with roots } := by
  refine ⟨{ h.consistent with }, h.layered.with_frames h.entered_of_mem_stack roots s.frames, ?_⟩
  intro v hv
  rcases h.roots v hv with hv' | hv'
  · rw [hroots] at hv'
    rcases List.mem_cons.mp hv' with rfl | hv'
    · exact .inr (entered_of_isFresh_eq_false (h.consistent.length_index ▸ hv) visited)
    · exact .inl hv'
  · exact .inr hv'

section Successor

variable {v w : Nat} {pending : List Nat} {frames : List Frame}

private theorem descend (h : Invariant adjacency s)
    (hframes : s.frames = ⟨v, w :: pending⟩ :: frames) (fresh : s.isFresh w = true) :
    Invariant adjacency
      (Search.enter adjacency w { s with frames := ⟨v, pending⟩ :: frames }) := by
  have layered := h.layered
  rw [hframes] at layered
  have consistent : Consistent adjacency { s with frames := ⟨v, pending⟩ :: frames } :=
    { h.consistent with }
  have entered_v : s.Entered v :=
    h.entered_of_mem_stack v (layered.vertex_mem _ List.mem_cons_self)
  refine ⟨consistent.enter fresh, consistent.layered_enter fresh ?_ ?_, ?_⟩
  · exact (consistent.layered_of_enter fresh
      (layered.with_frames h.entered_of_mem_stack s.roots _)).consume
        (consistent.settled_enter fresh entered_v layered.lowlink_le_head)
  · intro parent hparent
    obtain rfl : ⟨v, pending⟩ = parent := by simpa using hparent
    exact layered.leads_of_mem_pending List.mem_cons_self
  · intro u hu
    have grown := extends_enter adjacency { s with frames := ⟨v, pending⟩ :: frames } fresh
    exact (h.roots u hu).imp id grown.entered

private theorem lookBack (h : Invariant adjacency s)
    (hframes : s.frames = ⟨v, w :: pending⟩ :: frames) (onStack : s.isOnStack w = true) :
    Invariant adjacency
      (Search.lower v (s.entryOf w) { s with frames := ⟨v, pending⟩ :: frames }) := by
  have layered := h.layered
  rw [hframes] at layered
  have member := (h.consistent.onStack_iff w).mp onStack
  have leads := layered.leads_of_mem_pending List.mem_cons_self
  refine ⟨(h.consistent.with_frames s.roots _).lower _ _, ?_, h.roots⟩
  have lowered := (layered.lower h.consistent.descending h.entered_of_mem_stack member
    (.single leads)).consume
      ⟨h.entered_of_mem_stack w member, .inr (by
        rw [lowlinkOf_lower_self]
        exact Nat.min_le_right _ _)⟩
  exact lowered.with_frames h.entered_of_mem_stack s.roots _

private theorem lookAside (bounded : Bounded adjacency) (h : Invariant adjacency s)
    (hframes : s.frames = ⟨v, w :: pending⟩ :: frames) (visited : s.isFresh w = false)
    (offStack : s.isOnStack w = false) :
    Invariant adjacency { s with frames := ⟨v, pending⟩ :: frames } := by
  have layered := h.layered
  rw [hframes] at layered
  have inside := bounded v w (layered.leads_of_mem_pending List.mem_cons_self)
  have entered := entered_of_isFresh_eq_false (h.consistent.length_index ▸ inside) visited
  have finished : w ∈ s.components.flatten := by
    refine ((h.consistent.entered_iff w).mp entered).resolve_left fun member => ?_
    rw [(h.consistent.onStack_iff w).mpr member] at offStack
    cases offStack
  exact ⟨{ h.consistent with },
    (layered.consume ⟨entered, .inl finished⟩).with_frames h.entered_of_mem_stack s.roots _,
    h.roots⟩

end Successor

section Leave

variable {v : Nat} {parent : Frame} {frames : List Frame} {above below : List Nat}

private theorem close (h : Invariant adjacency s) (hstack : s.stack = above ++ v :: below)
    (layer : Layer adjacency s ⟨v, []⟩ above below) (rest : Layered adjacency s frames below)
    (root : s.lowlinkOf v = s.entryOf v) :
    Invariant adjacency (Search.popComponent v { s with frames }) := by
  have hv := h.consistent.not_mem_above hstack
  have consistent := (h.consistent.with_frames s.roots frames).popComponent hstack
    (fun x hx => ⟨layer.reached x hx, layer.returns x hx⟩)
    (layer.exits h.consistent hstack root)
  refine ⟨consistent, ?_, h.roots⟩
  rw [popComponent_eq (s := { s with frames }) hstack hv]
  refine rest.mono ⟨fun _ _ h => h, fun _ h => List.mem_append_right _ h⟩ ?_ fun _ _ => rfl
  intro u hu
  exact h.entered_of_mem_stack u (by simp [hstack, hu])

private theorem inherit (h : Invariant adjacency s) (hstack : s.stack = above ++ v :: below)
    (layer : Layer adjacency s ⟨v, []⟩ above below) (arc : Leads adjacency parent.vertex v)
    (rest : Layered adjacency s (parent :: frames) below) (waits : s.lowlinkOf v ≠ s.entryOf v) :
    Invariant adjacency
      (Search.lower parent.vertex (s.lowlinkOf v) { s with frames := parent :: frames }) := by
  refine ⟨(h.consistent.with_frames s.roots _).lower _ _, ?_, h.roots⟩
  have entered_below : ∀ u ∈ below, s.Entered u := fun u hu =>
    h.entered_of_mem_stack u (by simp [hstack, hu])
  obtain ⟨y, hy, entry, walk⟩ := layer.lowlink_reached
  have hy : y ∈ below := by
    refine (List.mem_cons.mp hy).resolve_left fun same => waits ?_
    rw [← entry, same]
  have lowered := rest.lower (h.consistent.descending_below hstack) entered_below hy
    (walk.head arc)
  rw [entry] at lowered
  have back : Walk adjacency v parent.vertex := walk.trans (rest.walk_to_head y hy)
  have merged := lowered.absorb (above ++ [v]) ?_ ?_ ?_
  · have shape : above ++ [v] ++ below = s.stack := by simp [hstack]
    rw [shape] at merged
    exact merged.with_frames h.entered_of_mem_stack s.roots (parent :: frames)
  · intro x hx
    rcases List.mem_append.mp hx with hx | hx
    · exact (layer.reached x hx).head arc
    · obtain rfl := List.mem_singleton.mp hx
      exact .single arc
  · intro x hx
    rcases List.mem_append.mp hx with hx | hx
    · exact (layer.returns x hx).trans back
    · obtain rfl := List.mem_singleton.mp hx
      exact back
  · intro x hx w leads
    have member : x ∈ v :: above := by
      rcases List.mem_append.mp hx with hx | hx
      · exact List.mem_cons_of_mem _ hx
      · exact List.mem_singleton.mp hx ▸ List.mem_cons_self
    rcases layer.explored x member w leads with ⟨-, absurd_⟩ | settled
    · cases absurd_
    · rw [lowlinkOf_lower_self]
      exact (extends_lower s _ _).settled (settled.of_le (Nat.min_le_right _ _))

private theorem leave (h : Invariant adjacency s) (hframes : s.frames = ⟨v, []⟩ :: frames) :
    Invariant adjacency (Search.leave v { s with frames }) := by
  have layered := h.layered
  rw [hframes] at layered
  obtain ⟨above, below, hstack, layer, arc, rest⟩ := layered.uncons
  cases frames with
  | nil =>
    -- nothing older is left that the frame could have reached
    have nothing := rest.eq_nil
    subst nothing
    obtain ⟨y, hy, entry, -⟩ := layer.lowlink_reached
    obtain rfl : y = v := by simpa using hy
    rw [leave_outermost rfl]
    split
    · exact h.close hstack layer rest entry.symm
    · rename_i waits
      exact absurd entry.symm waits
  | cons parent outer =>
    have later := h.consistent.entryOf_lt_of_mem_below hstack parent.vertex
      (rest.vertex_mem parent List.mem_cons_self)
    have ne : v ≠ parent.vertex := by
      rintro rfl
      exact Nat.lt_irrefl _ later
    rw [leave_inner rfl ne]
    split
    · rename_i root
      have le : s.lowlinkOf parent.vertex ≤ s.lowlinkOf v :=
        rest.lowlink_le_head.trans (root ▸ later.le)
      have unchanged := lower_eq_self { s with frames := parent :: outer } le
      change Invariant adjacency (Search.popComponent v
        (Search.lower parent.vertex (s.lowlinkOf v) { s with frames := parent :: outer }))
      rw [unchanged]
      exact h.close hstack layer rest root
    · rename_i waits
      exact h.inherit hstack layer (arc parent rfl) rest waits

end Leave

theorem step (bounded : Bounded adjacency) (h : Invariant adjacency s)
    (step : Step adjacency s t) : Invariant adjacency t := by
  cases step with
  | enterRoot noFrame hroots fresh => exact h.enterRoot noFrame hroots fresh
  | skipRoot _ hroots visited => exact h.skipRoot hroots visited
  | descend hframes fresh => exact h.descend hframes fresh
  | lookBack hframes _ onStack => exact h.lookBack hframes onStack
  | lookAside hframes visited offStack => exact h.lookAside bounded hframes visited offStack
  | leave hframes => exact h.leave hframes

theorem start (adjacency : List (List Nat)) :
    Invariant adjacency (Search.start adjacency.length) := by
  have unentered : ∀ v, ¬ (Search.start adjacency.length).Entered v := by
    rintro v ⟨time, h⟩
    simp [Search.start, List.getElem?_replicate] at h
  refine ⟨?_, .nil, fun v hv => .inl (List.mem_range.mpr hv)⟩
  refine
    { length_index := List.length_replicate
      length_lowlink := List.length_replicate
      length_onStack := List.length_replicate
      nodup := List.nodup_nil
      entered_iff := fun v => iff_of_false (unentered v) (by simp [Search.start])
      onStack_iff := ?_
      entry_lt := fun v hv => absurd hv (unentered v)
      descending := .nil
      closed := fun v hv => by simp [Search.start] at hv
      strong := fun c hc => by simp [Search.start] at hc
      component_ne_nil := fun c hc => by simp [Search.start] at hc
      component_sorted := fun c hc => by simp [Search.start] at hc }
  intro v
  simp [isOnStack, Search.start, List.getElem?_replicate]

/-- The invariant holds at the end of a run, and there is nothing left to do. -/
theorem run (bounded : Bounded adjacency) (h : Invariant adjacency s) :
    Invariant adjacency (Search.run adjacency s) ∧
      (Search.run adjacency s).step? adjacency = none := by
  fun_induction Search.run adjacency s with
  | case1 s hnone => exact ⟨h, hnone⟩
  | case2 s t hsome _ ih => exact ih (h.step bounded (step_of_step? hsome))

end Invariant

theorem eq_nil_of_step?_eq_none (h : s.step? adjacency = none) : s.frames = [] ∧ s.roots = [] := by
  unfold step? at h
  split at h
  · rename_i noFrame
    split at h
    · rename_i noRoot
      exact ⟨noFrame, noRoot⟩
    · cases h
  · cases h
  · cases h

theorem Invariant.mem_components_iff (h : Invariant adjacency s)
    (done : s.step? adjacency = none) (v : Nat) :
    v ∈ s.components.flatten ↔ v < adjacency.length := by
  obtain ⟨noFrame, noRoot⟩ := eq_nil_of_step?_eq_none done
  have noStack := h.stack_eq_nil noFrame
  have entered : s.Entered v ↔ v ∈ s.components.flatten := by
    simpa [noStack] using h.consistent.entered_iff v
  rw [← entered]
  constructor
  · rintro ⟨time, hv⟩
    exact h.consistent.length_index ▸ (List.getElem?_eq_some_iff.mp hv).1
  · intro hv
    refine (h.roots v hv).resolve_left ?_
    simp [noRoot]

end ObjectRelational.Digraph.Search
