import ObjectRelational.Digraph.StrongComponents
import ObjectRelational.Proofs.Digraph.Reachability

set_option autoImplicit false
set_option relaxedAutoImplicit false

/-!
The stack of a search falls into layers, one for each frame: the vertex of the frame and, above it,
the explored vertices that wait for it to close their component. All vertices of a layer are
mutually reachable, and the lowlink of the frame answers for the arcs that leave the layer.
-/

namespace ObjectRelational.Digraph.Search

open Relation

def Entered (s : Search) (v : Nat) : Prop := ∃ time, s.index[v]? = some (some time)

/-- An arc to `w` can do nothing more for a layer whose lowlink is `bound`. -/
def Settled (s : Search) (bound w : Nat) : Prop :=
  s.Entered w ∧ (w ∈ s.components.flatten ∨ bound ≤ s.entryOf w)

/-- One frame with the vertices above its own on the stack and those below. -/
structure Layer (adjacency : List (List Nat)) (s : Search) (frame : Frame)
    (above below : List Nat) : Prop where
  reached : ∀ x ∈ above, Walk adjacency frame.vertex x
  returns : ∀ x ∈ above, Walk adjacency x frame.vertex
  pending : ∀ w ∈ frame.pending, Leads adjacency frame.vertex w
  lowlink_le : s.lowlinkOf frame.vertex ≤ s.entryOf frame.vertex
  lowlink_reached : ∃ y ∈ frame.vertex :: below,
    s.entryOf y = s.lowlinkOf frame.vertex ∧ Walk adjacency frame.vertex y
  explored : ∀ x ∈ frame.vertex :: above, ∀ w, Leads adjacency x w →
    (x = frame.vertex ∧ w ∈ frame.pending) ∨ s.Settled (s.lowlinkOf frame.vertex) w

/-- A list of frames and the part of the stack that belongs to them. -/
inductive Layered (adjacency : List (List Nat)) (s : Search) : List Frame → List Nat → Prop
  | nil : Layered adjacency s [] []
  | cons {frame : Frame} {frames : List Frame} {above below : List Nat} :
      Layer adjacency s frame above below →
      (∀ parent ∈ frames.head?, Leads adjacency parent.vertex frame.vertex) →
      Layered adjacency s frames below →
      Layered adjacency s (frame :: frames) (above ++ frame.vertex :: below)

/-- What a search knew stays known. -/
structure Extends (s t : Search) : Prop where
  index : ∀ v time : Nat, s.index[v]? = some (some time) → t.index[v]? = some (some time)
  components : s.components.flatten ⊆ t.components.flatten

variable {adjacency : List (List Nat)} {s t : Search} {frames : List Frame} {stack : List Nat}

theorem entryOf_eq {v time : Nat} (h : s.index[v]? = some (some time)) : s.entryOf v = time := by
  simp [entryOf, h]

namespace Extends

theorem entered (h : Extends s t) {v : Nat} (hv : s.Entered v) : t.Entered v := by
  obtain ⟨time, hv⟩ := hv
  exact ⟨time, h.index v time hv⟩

theorem entryOf (h : Extends s t) {v : Nat} (hv : s.Entered v) : t.entryOf v = s.entryOf v := by
  obtain ⟨time, hv⟩ := hv
  rw [entryOf_eq hv, entryOf_eq (h.index v time hv)]

theorem settled (h : Extends s t) {bound w : Nat} (hw : s.Settled bound w) :
    t.Settled bound w := by
  refine ⟨h.entered hw.1, ?_⟩
  rw [h.entryOf hw.1]
  exact hw.2.imp (fun closed => h.components closed) id

end Extends

theorem Settled.of_le {bound bound' w : Nat} (h : s.Settled bound w) (le : bound' ≤ bound) :
    s.Settled bound' w := ⟨h.1, h.2.imp id (Nat.le_trans le)⟩

namespace Layered

theorem vertex_mem (h : Layered adjacency s frames stack) :
    ∀ frame ∈ frames, frame.vertex ∈ stack := by
  induction h with
  | nil => simp
  | cons _ _ _ ih =>
    intro frame member
    rcases List.mem_cons.mp member with rfl | member
    · simp
    · exact List.mem_append_right _ (List.mem_cons_of_mem _ (ih frame member))

theorem mono (h : Layered adjacency s frames stack) (extends_ : Extends s t)
    (entered : ∀ v ∈ stack, s.Entered v)
    (lowlink : ∀ frame ∈ frames, t.lowlinkOf frame.vertex = s.lowlinkOf frame.vertex) :
    Layered adjacency t frames stack := by
  induction h with
  | nil => exact .nil
  | @cons frame frames above below layer arc _ ih =>
    have same := lowlink frame (List.mem_cons_self)
    have entered_below : ∀ v ∈ frame.vertex :: below, s.Entered v :=
      fun v hv => entered v (List.mem_append_right _ hv)
    refine .cons ?_ arc (ih (fun v hv => entered_below v (List.mem_cons_of_mem _ hv))
      (fun f hf => lowlink f (List.mem_cons_of_mem _ hf)))
    refine ⟨layer.reached, layer.returns, layer.pending, ?_, ?_, ?_⟩
    · rw [same, extends_.entryOf (entered_below _ List.mem_cons_self)]
      exact layer.lowlink_le
    · obtain ⟨y, hy, time, walk⟩ := layer.lowlink_reached
      exact ⟨y, hy, by rw [same, extends_.entryOf (entered_below y hy), time], walk⟩
    · intro x hx w leads
      rw [same]
      exact (layer.explored x hx w leads).imp id extends_.settled

theorem with_frames (h : Layered adjacency s frames stack) (entered : ∀ v ∈ stack, s.Entered v)
    (roots : List Nat) (frames' : List Frame) :
    Layered adjacency { s with roots, frames := frames' } frames stack :=
  h.mono ⟨fun _ _ h => h, fun _ h => h⟩ entered fun _ _ => rfl

theorem eq_nil (h : Layered adjacency s [] stack) : stack = [] := by
  cases h
  rfl

theorem uncons {frame : Frame} (h : Layered adjacency s (frame :: frames) stack) :
    ∃ above below, stack = above ++ frame.vertex :: below ∧ Layer adjacency s frame above below ∧
      (∀ parent ∈ frames.head?, Leads adjacency parent.vertex frame.vertex) ∧
      Layered adjacency s frames below := by
  cases h with
  | cons layer arc rest => exact ⟨_, _, rfl, layer, arc, rest⟩

theorem lowlink_le_head {frame : Frame} (h : Layered adjacency s (frame :: frames) stack) :
    s.lowlinkOf frame.vertex ≤ s.entryOf frame.vertex := by
  cases h with
  | cons layer _ _ => exact layer.lowlink_le

theorem leads_of_mem_pending {frame : Frame} (h : Layered adjacency s (frame :: frames) stack)
    {w : Nat} (hw : w ∈ frame.pending) : Leads adjacency frame.vertex w := by
  cases h with
  | cons layer _ _ => exact layer.pending w hw

theorem consume {v w : Nat} {pending : List Nat}
    (h : Layered adjacency s (⟨v, w :: pending⟩ :: frames) stack)
    (settled : s.Settled (s.lowlinkOf v) w) :
    Layered adjacency s (⟨v, pending⟩ :: frames) stack := by
  cases h with
  | cons layer arc rest =>
    refine .cons ⟨layer.reached, layer.returns,
      fun u hu => layer.pending u (List.mem_cons_of_mem _ hu), layer.lowlink_le,
      layer.lowlink_reached, ?_⟩ arc rest
    intro x hx u leads
    rcases layer.explored x hx u leads with ⟨rfl, member⟩ | done
    · rcases List.mem_cons.mp member with rfl | member
      · exact .inr settled
      · exact .inl ⟨rfl, member⟩
    · exact .inr done

theorem walk_to_head {frame : Frame} (h : Layered adjacency s (frame :: frames) stack) :
    ∀ y ∈ stack, Walk adjacency y frame.vertex := by
  generalize hfs : frame :: frames = fs at h
  induction h generalizing frame frames with
  | nil => simp at hfs
  | @cons f rest above below layer arc layered ih =>
    injection hfs with hf hrest
    subst hf hrest
    intro y hy
    rcases List.mem_append.mp hy with hy | hy
    · exact layer.returns y hy
    rcases List.mem_cons.mp hy with rfl | hy
    · exact .refl
    · cases hframes : frames with
      | nil =>
        subst hframes
        cases layered
        simp at hy
      | cons parent outer =>
        subst hframes
        exact (ih rfl y hy).tail (arc parent (by simp))

theorem absorb {frame : Frame} (h : Layered adjacency s (frame :: frames) stack) (xs : List Nat)
    (reached : ∀ x ∈ xs, Walk adjacency frame.vertex x)
    (returns : ∀ x ∈ xs, Walk adjacency x frame.vertex)
    (explored : ∀ x ∈ xs, ∀ w, Leads adjacency x w →
      s.Settled (s.lowlinkOf frame.vertex) w) :
    Layered adjacency s (frame :: frames) (xs ++ stack) := by
  cases h with
  | @cons _ _ above below layer arc rest =>
    rw [← List.append_assoc]
    refine .cons ⟨?_, ?_, layer.pending, layer.lowlink_le, layer.lowlink_reached, ?_⟩ arc rest
    · intro x hx
      exact (List.mem_append.mp hx).elim (reached x) (layer.reached x)
    · intro x hx
      exact (List.mem_append.mp hx).elim (returns x) (layer.returns x)
    · intro x hx w leads
      rcases List.mem_cons.mp hx with rfl | hx
      · exact layer.explored _ List.mem_cons_self w leads
      rcases List.mem_append.mp hx with hx | hx
      · exact .inr (explored x hx w leads)
      · exact layer.explored x (List.mem_cons_of_mem _ hx) w leads

end Layered

/-- The vertices on the stack were entered in the order of the stack. -/
def Descending (s : Search) (stack : List Nat) : Prop :=
  stack.Pairwise fun v w => s.entryOf w < s.entryOf v

theorem Descending.nodup (h : s.Descending stack) : stack.Nodup :=
  h.imp fun lt => by
    rintro rfl
    exact Nat.lt_irrefl _ lt

theorem extends_lower (s : Search) (v bound : Nat) : Extends s (s.lower v bound) :=
  ⟨fun _ _ h => h, fun _ h => h⟩

theorem lowlinkOf_lower_self (s : Search) (v bound : Nat) :
    (s.lower v bound).lowlinkOf v = min (s.lowlinkOf v) bound := by
  by_cases inside : v < s.lowlink.length
  · simp [lower, lowlinkOf, inside]
  · simp [lower, lowlinkOf, Nat.le_of_not_lt inside]

theorem lowlinkOf_lower_of_ne (s : Search) {v w : Nat} (bound : Nat) (ne : w ≠ v) :
    (s.lower v bound).lowlinkOf w = s.lowlinkOf w := by
  simp [lower, lowlinkOf, List.getElem?_set_ne ne.symm]

theorem lower_eq_self (s : Search) {v bound : Nat} (le : s.lowlinkOf v ≤ bound) :
    s.lower v bound = s := by
  have same : s.lowlink.set v (s.lowlinkOf v) = s.lowlink := by
    apply List.ext_getElem?
    intro w
    by_cases hw : v = w
    · subst hw
      by_cases inside : v < s.lowlink.length
      · simp [lowlinkOf, inside]
      · simp [Nat.le_of_not_lt inside]
    · rw [List.getElem?_set_ne hw]
  rw [lower, Nat.min_eq_left le, same]

/-- The innermost lowlink may be lowered to the entry time of any vertex that is on the stack and
reached from the frame. -/
theorem Layered.lower {frame : Frame} (h : Layered adjacency s (frame :: frames) stack)
    (descending : s.Descending stack) (entered : ∀ v ∈ stack, s.Entered v) {y : Nat}
    (hy : y ∈ stack) (walk : Walk adjacency frame.vertex y) :
    Layered adjacency (s.lower frame.vertex (s.entryOf y)) (frame :: frames) stack := by
  cases h with
  | @cons _ _ above below layer arc rest =>
    obtain ⟨-, inner, across⟩ := List.pairwise_append.mp descending
    have self := lowlinkOf_lower_self s frame.vertex (s.entryOf y)
    have others : ∀ f ∈ frames,
        (s.lower frame.vertex (s.entryOf y)).lowlinkOf f.vertex = s.lowlinkOf f.vertex := by
      intro f hf
      refine lowlinkOf_lower_of_ne s _ fun same => ?_
      have lt := (List.pairwise_cons.mp inner).1 _ (rest.vertex_mem f hf)
      exact Nat.lt_irrefl _ (same ▸ lt)
    refine .cons ⟨layer.reached, layer.returns, layer.pending, ?_, ?_, ?_⟩ arc
      (rest.mono (extends_lower s _ _) (fun v hv => entered v (by simp [hv])) others)
    · rw [self]
      exact Nat.le_trans (Nat.min_le_left _ _) layer.lowlink_le
    · rw [self]
      rcases Nat.le_total (s.lowlinkOf frame.vertex) (s.entryOf y) with le | le
      · rw [Nat.min_eq_left le]
        exact layer.lowlink_reached
      · rw [Nat.min_eq_right le]
        refine ⟨y, ?_, rfl, walk⟩
        rcases List.mem_append.mp hy with above_y | below_y
        · -- what lies above the frame was entered after it, and a lowlink is no later
          have lt := across y above_y _ List.mem_cons_self
          have := layer.lowlink_le
          omega
        · exact below_y
    · intro x hx w leads
      refine (layer.explored x hx w leads).imp id fun settled => ?_
      rw [self]
      exact (extends_lower s _ _).settled (settled.of_le (Nat.min_le_left _ _))

end ObjectRelational.Digraph.Search
