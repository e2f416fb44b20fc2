import ObjectRelational.Proofs.Digraph.Built

set_option autoImplicit false
set_option relaxedAutoImplicit false

/-!
What a search does step by step, written down: the vertices whose frames it opens and the entries of
the successor lists that it consumes. At every moment the record tells when each vertex was
entered, what is still pending and what lies on the stack; at the end every vertex was opened and
every entry consumed, once.
-/

namespace ObjectRelational.Digraph.Search

/-- The vertices whose frames a step has put on top of those that there were. -/
def opened (s t : Search) : List Nat :=
  (t.frames.take (t.frames.length - s.frames.length)).map (·.vertex)

/-- The entry that the next step consumes, as origin and destination. -/
def consumed (s : Search) : List (Nat × Nat) :=
  match s.frames with
  | ⟨v, w :: _⟩ :: _ => [(v, w)]
  | _ => []

/-- The frames without the innermost pending entry, or without the innermost frame if there is
none. -/
def advanced : List Frame → List Frame
  | [] => []
  | ⟨_, []⟩ :: frames => frames
  | ⟨v, _ :: pending⟩ :: frames => ⟨v, pending⟩ :: frames

structure Trace where
  steps : Nat := 0
  /-- The vertices whose frames were opened. -/
  opened : List Nat := []
  /-- The entries that were consumed, as origins and destinations. -/
  consumed : List (Nat × Nat) := []
  deriving Repr, DecidableEq

def Trace.add (trace : Trace) (s t : Search) : Trace where
  steps := trace.steps + 1
  opened := trace.opened ++ s.opened t
  consumed := trace.consumed ++ s.consumed

/-- The destinations of the entries that were consumed in the successor list of a vertex. -/
def entriesFrom (entries : List (Nat × Nat)) (v : Nat) : List Nat :=
  (entries.filter (·.1 = v)).map (·.2)

/-- The states that a search comes through, each with the record of how. -/
inductive Runs (adjacency : List (List Nat)) (first : Search) : Trace → Search → Prop
  | start : Runs adjacency first {} first
  | step {trace : Trace} {s t : Search} : Runs adjacency first trace s →
      s.step? adjacency = some t → Runs adjacency first (trace.add s t) t

variable {adjacency : List (List Nat)} {first s t : Search} {trace : Trace}

private theorem Runs.run (runs : Runs adjacency first trace s) :
    ∃ trace, Runs adjacency first trace (s.run adjacency) := by
  fun_induction Search.run adjacency s generalizing trace with
  | case1 s _ => exact ⟨trace, runs⟩
  | case2 s t next _ ih => exact ih (runs.step next)

private theorem Runs.steps_add_budget (runs : Runs adjacency first trace s) :
    trace.steps + s.budget adjacency = first.budget adjacency := by
  induction runs with
  | start => exact Nat.zero_add _
  | step _ next ih =>
    have paid := budget_step? adjacency next
    rw [← ih, ← paid]
    exact Nat.add_right_comm _ _ _

private theorem freshCost_replicate {offset count : Nat}
    (inside : offset + count = adjacency.length) :
    freshCost adjacency offset (List.replicate count none) =
      count + (adjacency.drop offset).flatten.length := by
  induction count generalizing offset with
  | zero =>
    rw [Nat.add_zero] at inside
    simp [freshCost, inside]
  | succ count ih =>
    have lt : offset < adjacency.length := by omega
    have rest := ih (by omega : offset + 1 + count = adjacency.length)
    rw [List.replicate_succ, freshCost, rest, entryCost, List.getElem?_eq_getElem lt,
      List.drop_eq_getElem_cons lt, List.flatten_cons, List.length_append, Option.getD_some]
    omega

private theorem budget_start :
    (Search.start adjacency.length).budget adjacency =
      2 * adjacency.length + adjacency.flatten.length := by
  have fresh := freshCost_replicate (Nat.zero_add adjacency.length)
  rw [List.drop_zero] at fresh
  simp only [budget, Search.start, fresh, List.length_range, List.flatMap_nil, List.length_nil]
  omega

/-! What a step does to the frames and to the marks of entering. -/

private theorem leave_keeps (s : Search) (v : Nat) :
    (s.leave v).frames = s.frames ∧ (s.leave v).index = s.index ∧
      (s.leave v).entered = s.entered := by
  obtain ⟨roots, frames, index, lowlink, onStack, stack, entered, components⟩ := s
  unfold leave
  cases frames <;> dsimp only <;> split <;> exact ⟨rfl, rfl, rfl⟩

private theorem Step.effect (step : Step adjacency s t) :
    (t.frames = advanced s.frames ∧ t.index = s.index ∧ t.entered = s.entered) ∨
      ∃ w, s.isFresh w = true ∧ (advanced s.frames).length = s.frames.length ∧
        t.frames = ⟨w, adjacency[w]?.getD []⟩ :: advanced s.frames ∧
        t.index = s.index.set w (some s.entered) ∧ t.entered = s.entered + 1 := by
  cases step with
  | enterRoot noFrame _ fresh =>
    right
    have nothing : advanced s.frames = s.frames := by
      rw [noFrame]
      rfl
    rw [nothing]
    exact ⟨_, fresh, rfl, rfl, rfl, rfl⟩
  | skipRoot noFrame _ _ =>
    left
    refine ⟨?_, rfl, rfl⟩
    change s.frames = _
    rw [noFrame]
    rfl
  | descend hframes fresh =>
    right
    refine ⟨_, fresh, ?_, ?_, rfl, rfl⟩
    · rw [hframes]
      rfl
    · rw [hframes]
      rfl
  | lookBack hframes _ _ =>
    left
    rw [hframes]
    exact ⟨rfl, rfl, rfl⟩
  | lookAside hframes _ _ =>
    left
    rw [hframes]
    exact ⟨rfl, rfl, rfl⟩
  | leave hframes =>
    left
    rw [hframes]
    exact leave_keeps _ _

private theorem length_advanced_le (frames : List Frame) :
    (advanced frames).length ≤ frames.length := by
  unfold advanced
  split <;> simp

def pendingIn (frames : List Frame) (v : Nat) : List Nat :=
  (frames.filter (·.vertex = v)).flatMap (·.pending)

private theorem entriesFrom_consumed_append (s : Search) (v : Nat) :
    entriesFrom s.consumed v ++ pendingIn (advanced s.frames) v = pendingIn s.frames v := by
  unfold consumed advanced
  split
  · rename_i u w pending frames hframes
    rw [hframes]
    by_cases same : u = v
    · simp [entriesFrom, pendingIn, same]
    · simp [entriesFrom, pendingIn, same]
  · rename_i other
    cases hframes : s.frames with
    | nil => rfl
    | cons frame frames =>
      obtain ⟨u, pending⟩ := frame
      cases pending with
      | nil =>
        by_cases same : u = v
        · simp [entriesFrom, pendingIn, same]
        · simp [entriesFrom, pendingIn, same]
      | cons w pending => exact absurd hframes (other u w pending frames)

private theorem entriesFrom_append (entries more : List (Nat × Nat)) (v : Nat) :
    entriesFrom (entries ++ more) v = entriesFrom entries v ++ entriesFrom more v := by
  rw [entriesFrom, List.filter_append, List.map_append]
  rfl

private theorem opened_eq_nil (frames : t.frames = advanced s.frames) : s.opened t = [] := by
  have shorter := length_advanced_le s.frames
  rw [opened, frames, Nat.sub_eq_zero_of_le shorter]
  rfl

private theorem opened_eq_singleton {w : Nat} {pending : List Nat}
    (same : (advanced s.frames).length = s.frames.length)
    (frames : t.frames = ⟨w, pending⟩ :: advanced s.frames) : s.opened t = [w] := by
  rw [opened, frames, List.length_cons, same, Nat.add_sub_cancel_left]
  rfl

private theorem getElem?_set_length_iff {times : List (Option Nat)} {vertices : List Nat} {w : Nat}
    (before : ∀ v time : Nat, times[v]? = some (some time) ↔ vertices[time]? = some v)
    (inside : w < times.length) (new : w ∉ vertices) (v time : Nat) :
    (times.set w (some vertices.length))[v]? = some (some time) ↔
      (vertices ++ [w])[time]? = some v := by
  rw [List.getElem?_append]
  by_cases same : w = v
  · subst same
    rw [List.getElem?_set_self inside]
    split
    · rename_i earlier
      refine iff_of_false (fun met => ?_) fun met => new (List.mem_of_getElem? met)
      have met : vertices.length = time := by simpa using met
      omega
    · rename_i later
      rw [List.getElem?_singleton]
      simp only [Option.some.injEq]
      split <;> simp <;> omega
  · rw [List.getElem?_set_ne same, before]
    split
    · rfl
    · rename_i later
      rw [List.getElem?_eq_none (Nat.le_of_not_lt later), List.getElem?_singleton]
      split <;> simp [same]

/-- What the record of a search says about the state that it has come to. -/
structure Recorded (adjacency : List (List Nat)) (trace : Trace) (s : Search) : Prop where
  invariant : Invariant adjacency s
  entered_eq : s.entered = trace.opened.length
  index_iff : ∀ v time : Nat, s.index[v]? = some (some time) ↔ trace.opened[time]? = some v
  consumed_append : ∀ v, entriesFrom trace.consumed v ++ pendingIn s.frames v =
    if v ∈ trace.opened then adjacency[v]?.getD [] else []

namespace Recorded

private theorem start (adjacency : List (List Nat)) :
    Recorded adjacency {} (Search.start adjacency.length) := by
  refine ⟨.start adjacency, rfl, fun v time => ?_, fun v => rfl⟩
  simp [Search.start, List.getElem?_replicate]

variable (h : Recorded adjacency trace s)

include h

private theorem mem_opened_iff {v : Nat} : v ∈ trace.opened ↔ s.Entered v := by
  rw [List.mem_iff_getElem?]
  exact exists_congr fun time => (h.index_iff v time).symm

private theorem consumed_append_open {w : Nat} (new : w ∉ trace.opened) (v : Nat) :
    entriesFrom (trace.consumed ++ s.consumed) v ++
        pendingIn (⟨w, adjacency[w]?.getD []⟩ :: advanced s.frames) v =
      if v ∈ trace.opened ++ [w] then adjacency[v]?.getD [] else [] := by
  have before := h.consumed_append v
  have now := entriesFrom_consumed_append s v
  rw [entriesFrom_append]
  by_cases same : w = v
  · subst same
    -- nothing of a vertex is consumed or pending before it is opened
    rw [if_neg new, List.append_eq_nil_iff] at before
    rw [before.2, List.append_eq_nil_iff] at now
    have opened : pendingIn (⟨w, adjacency[w]?.getD []⟩ :: advanced s.frames) w =
        adjacency[w]?.getD [] ++ pendingIn (advanced s.frames) w := by simp [pendingIn]
    rw [opened, before.1, now.1, now.2, if_pos (List.mem_append_right _ List.mem_cons_self)]
    exact List.append_nil _
  · have others : pendingIn (⟨w, adjacency[w]?.getD []⟩ :: advanced s.frames) v =
        pendingIn (advanced s.frames) v := by simp [pendingIn, same]
    rw [others, List.append_assoc, now, before]
    simp [Ne.symm same]

private theorem step (bounded : Bounded adjacency) (step : Step adjacency s t) :
    Recorded adjacency (trace.add s t) t := by
  have invariant := h.invariant.step bounded step
  rcases step.effect with ⟨frames, index, entered⟩ | ⟨w, fresh, same, frames, index, entered⟩
  · have nothing := opened_eq_nil frames
    refine ⟨invariant, ?_, fun v time => ?_, fun v => ?_⟩
    · rw [entered, h.entered_eq, Trace.add, nothing, List.append_nil]
    · rw [index, h.index_iff, Trace.add, nothing, List.append_nil]
    · rw [Trace.add, nothing, List.append_nil, ← h.consumed_append, frames, entriesFrom_append,
        List.append_assoc, entriesFrom_consumed_append]
  · have one := opened_eq_singleton same frames
    have new : w ∉ trace.opened := mt h.mem_opened_iff.mp (not_entered_of_isFresh fresh)
    have inside : w < s.index.length := (List.getElem?_eq_some_iff.mp (isFresh_iff.mp fresh)).1
    refine ⟨invariant, ?_, fun v time => ?_, fun v => ?_⟩
    · rw [entered, h.entered_eq, Trace.add, one, List.length_append, List.length_singleton]
    · rw [index, h.entered_eq, Trace.add, one]
      exact getElem?_set_length_iff h.index_iff inside new v time
    · rw [frames, Trace.add, one]
      exact h.consumed_append_open new v

private theorem nodup_opened : trace.opened.Nodup := by
  rw [List.nodup_iff_getElem?_ne_getElem?]
  intro i j lt inside same
  have later := (h.index_iff _ j).mpr (List.getElem?_eq_getElem inside)
  have earlier := (h.index_iff _ i).mpr (same.trans (List.getElem?_eq_getElem inside))
  have both := earlier.symm.trans later
  simp only [Option.some.injEq] at both
  omega

private theorem ascending_opened : trace.opened.Pairwise fun v w => s.entryOf v < s.entryOf w := by
  rw [List.pairwise_iff_getElem]
  intro i j hi hj lt
  rw [entryOf_eq ((h.index_iff _ i).mpr (List.getElem?_eq_getElem hi)),
    entryOf_eq ((h.index_iff _ j).mpr (List.getElem?_eq_getElem hj))]
  exact lt

private theorem mem_stack_iff {v : Nat} :
    v ∈ s.stack ↔ v ∈ trace.opened ∧ v ∉ s.components.flatten := by
  rw [h.mem_opened_iff, h.invariant.consistent.entered_iff]
  have apart := List.disjoint_of_nodup_append h.invariant.consistent.nodup
  constructor
  · intro waits
    exact ⟨.inl waits, fun finished => apart waits finished⟩
  · rintro ⟨waits | finished, out⟩
    · exact waits
    · exact absurd finished out

/-- From the bottom up, the stack holds what was opened and has no component, as it was opened. -/
private theorem reverse_stack :
    s.stack.reverse = trace.opened.filter (· ∉ s.components.flatten) := by
  have descending := h.invariant.consistent.descending
  have perm : s.stack.reverse.Perm (trace.opened.filter (· ∉ s.components.flatten)) := by
    refine (List.perm_ext_iff_of_nodup (List.nodup_reverse.mpr descending.nodup)
      (h.nodup_opened.filter _)).mpr fun v => ?_
    rw [List.mem_reverse, h.mem_stack_iff, List.mem_filter, decide_eq_true_eq]
  exact perm.eq_of_pairwise (fun v w _ _ lt gt => absurd (Nat.lt_trans lt gt) (Nat.lt_irrefl _))
    (List.pairwise_reverse.mpr descending) (h.ascending_opened.filter _)

private theorem entriesFrom_prefix (v : Nat) :
    entriesFrom trace.consumed v <+: adjacency[v]?.getD [] := by
  have whole := h.consumed_append v
  split at whole
  · exact ⟨_, whole⟩
  · rw [(List.append_eq_nil_iff.mp whole).1]
    exact List.nil_prefix

section Done

variable (done : s.step? adjacency = none)

include done

private theorem mem_opened_iff_lt {v : Nat} : v ∈ trace.opened ↔ v < adjacency.length := by
  have noStack := h.invariant.stack_eq_nil (eq_nil_of_step?_eq_none done).1
  rw [h.mem_opened_iff, h.invariant.consistent.entered_iff, noStack,
    or_iff_right List.not_mem_nil]
  exact h.invariant.mem_components_iff done v

private theorem opened_perm : trace.opened.Perm (List.range adjacency.length) := by
  refine (List.perm_ext_iff_of_nodup h.nodup_opened List.nodup_range).mpr fun v => ?_
  rw [h.mem_opened_iff_lt done, List.mem_range]

private theorem entriesFrom_eq (v : Nat) :
    entriesFrom trace.consumed v = adjacency[v]?.getD [] := by
  have whole := h.consumed_append v
  rw [(eq_nil_of_step?_eq_none done).1] at whole
  change _ ++ [] = _ at whole
  rw [List.append_nil] at whole
  rw [whole]
  split
  · rfl
  · rename_i out
    have outside := Nat.le_of_not_lt (mt (h.mem_opened_iff_lt done).mpr out)
    rw [List.getElem?_eq_none outside]
    rfl

end Done

end Recorded

private theorem Runs.recorded (bounded : Bounded adjacency)
    (runs : Runs adjacency (Search.start adjacency.length) trace s) :
    Recorded adjacency trace s := by
  induction runs with
  | start => exact .start adjacency
  | step _ next ih => exact ih.step bounded (step_of_step? next)

end ObjectRelational.Digraph.Search

namespace ObjectRelational.Digraph

variable {V E : Type} [DecidableEq V] {g : Digraph V E}

/-- The search for the components of a graph comes to an end. On the way no vertex is opened and no
entry of a successor list consumed twice; the stack holds the vertices that were opened and have no
component yet, as they were opened, and they are the marked ones; finished components are not
empty; and whenever no frame is left the stack is empty. At the end every vertex was opened and
every entry consumed. -/
theorem search_runs_to_end (built : g.Built) :
    let first := Search.start g.order
    (∃ trace, Search.Runs g.adjacency first trace (first.run g.adjacency)) ∧
      (first.run g.adjacency).step? g.adjacency = none ∧
      ∀ trace s, Search.Runs g.adjacency first trace s →
        trace.steps ≤ 2 * g.order + g.size ∧
        trace.opened.Nodup ∧
        (∀ v time : Nat, s.index[v]? = some (some time) ↔ trace.opened[time]? = some v) ∧
        (∀ v, Search.entriesFrom trace.consumed v <+: g.adjacency[v]?.getD []) ∧
        s.stack.reverse = trace.opened.filter (· ∉ s.components.flatten) ∧
        (s.stack.reverse.Pairwise fun v w => s.entryOf v < s.entryOf w) ∧
        (∀ v, s.isOnStack v = true ↔ v ∈ s.stack) ∧
        (∀ c ∈ s.components, c ≠ []) ∧
        (s.frames = [] → s.stack = []) ∧
        (s.step? g.adjacency = none → trace.opened.Perm (List.range g.order) ∧
          ∀ v, Search.entriesFrom trace.consumed v = g.adjacency[v]?.getD []) := by
  intro first
  have formed := built.wellFormed
  have length := formed.length_adjacency
  have first_eq : first = Search.start g.adjacency.length := by rw [length]
  refine ⟨Search.Runs.start.run, ?_, fun trace s runs => ?_⟩
  · rw [first_eq]
    exact ((Search.Invariant.start g.adjacency).run formed.bounded).2
  · have paid := runs.steps_add_budget
    rw [first_eq] at runs paid
    rw [Search.budget_start, length, length_flatten_adjacency] at paid
    have recorded := runs.recorded formed.bounded
    have consistent := recorded.invariant.consistent
    refine ⟨by omega, recorded.nodup_opened, recorded.index_iff, recorded.entriesFrom_prefix,
      recorded.reverse_stack, List.pairwise_reverse.mpr consistent.descending,
      consistent.onStack_iff, consistent.component_ne_nil, recorded.invariant.stack_eq_nil,
      fun done => ⟨?_, recorded.entriesFrom_eq done⟩⟩
    exact length ▸ recorded.opened_perm done

theorem search_runs_to_end_tail :
    let g := (((({} : Digraph Nat Nat).putArc 0 1 5).putArc 1 0 6).putArc 2 0 7).putArc 2 2 8
    ∃ trace, Search.Runs g.adjacency (Search.start 3) trace
        ((Search.start 3).run g.adjacency) ∧
      trace.steps ≤ 2 * 3 + 4 ∧ trace.opened.Perm (List.range 3) ∧
      Search.entriesFrom trace.consumed 2 = [0, 2] := by
  intro g
  have built : g.Built := .putArc 2 2 8 (.putArc 2 0 7 (.putArc 1 0 6 (.putArc 0 1 5 .empty)))
  obtain ⟨⟨trace, runs⟩, done, all⟩ := search_runs_to_end built
  obtain ⟨steps, -, -, -, -, -, -, -, -, last⟩ := all trace _ runs
  exact ⟨trace, runs, steps, (last done).1, (last done).2 2⟩

end ObjectRelational.Digraph
