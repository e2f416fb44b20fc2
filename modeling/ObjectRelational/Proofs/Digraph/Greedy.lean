import ObjectRelational.Proofs.Digraph.TopologicalOrder

set_option autoImplicit false
set_option relaxedAutoImplicit false

/-!
Which of the vertices that are ready an emission takes. Under a preference that never ties it is
the preferred one, so what comes out depends on the arcs and on the preference alone: not on the
labels, nor on how the arcs of a vertex are listed.
-/

namespace ObjectRelational.Digraph

open Relation
open ObjectRelational.Order

/-- Values in the order in which they are taken, the latest first. Each of them is open when it is
taken, and preferred to all others that are. -/
inductive Greedy {α : Type} (isOpen : List α → α → Prop) (prefers : α → α → Prop) :
    List α → Prop
  | nil : Greedy isOpen prefers []
  | cons {a : α} {taken : List α} : isOpen taken a →
      (∀ b, isOpen taken b → b ≠ a → prefers a b) → Greedy isOpen prefers taken →
      Greedy isOpen prefers (a :: taken)

/-- Two greedy orders agree, value by value, where corresponding values are open together and
preferred alike. -/
theorem Greedy.forall₂ {α β : Type} {isOpen : List α → α → Prop} {isOpen' : List β → β → Prop}
    {prefers : α → α → Prop} {prefers' : β → β → Prop} {corresponds : α → β → Prop}
    (forth : ∀ {taken taken' a}, List.Forall₂ corresponds taken taken' → isOpen taken a →
      ∃ b, isOpen' taken' b ∧ corresponds a b)
    (back : ∀ {taken taken' b}, List.Forall₂ corresponds taken taken' → isOpen' taken' b →
      ∃ a, isOpen taken a ∧ corresponds a b)
    (alike : ∀ {a b a' b'}, corresponds a a' → corresponds b b' → a ≠ b → prefers a b →
      prefers' a' b')
    (asymm : ∀ a b, prefers' a b → ¬ prefers' b a) {as : List α} {bs : List β}
    (greedy : Greedy isOpen prefers as) (greedy' : Greedy isOpen' prefers' bs)
    (same : as.length = bs.length) : List.Forall₂ corresponds as bs := by
  induction greedy generalizing bs with
  | nil =>
    rw [List.eq_nil_of_length_eq_zero same.symm]
    exact .nil
  | @cons a taken opened first _ ih =>
    cases greedy' with
    | nil => cases same
    | @cons b taken' opened' first' rest' =>
      have earlier := ih rest' (Nat.succ.inj same)
      obtain ⟨b', hopen', hab'⟩ := forth earlier opened
      obtain ⟨a', hopen, ha'b⟩ := back earlier opened'
      refine .cons ?_ earlier
      by_cases met : b' = b
      · exact met ▸ hab'
      by_cases met' : a' = a
      · exact met' ▸ ha'b
      -- each side would prefer its own choice to that of the other
      exact absurd (alike hab' ha'b (Ne.symm met') (first a' hopen met'))
        (asymm b b' (first' b' hopen' met))

theorem Greedy.eq_of_length {α : Type} {isOpen : List α → α → Prop} {prefers : α → α → Prop}
    (asymm : ∀ a b, prefers a b → ¬ prefers b a) {as bs : List α}
    (greedy : Greedy isOpen prefers as) (greedy' : Greedy isOpen prefers bs)
    (same : as.length = bs.length) : as = bs := by
  have pointwise : List.Forall₂ Eq as bs := by
    refine greedy.forall₂ ?_ ?_ ?_ asymm greedy' same
    · intro taken taken' a equal opened
      rw [List.forall₂_eq_eq_eq] at equal
      exact ⟨a, equal ▸ opened, rfl⟩
    · intro taken taken' b equal opened
      rw [List.forall₂_eq_eq_eq] at equal
      exact ⟨b, equal ▸ opened, rfl⟩
    · rintro a b _ _ rfl rfl - preferred
      exact preferred
  rwa [List.forall₂_eq_eq_eq] at pointwise

private theorem Greedy.sublist_of_open {α : Type} {isOpen : List α → α → Prop}
    {prefers : α → α → Prop} (asymm : ∀ a b, prefers a b → ¬ prefers b a) {as : List α}
    (greedy : Greedy isOpen prefers as) {a b : α} (opened : ∀ taken, a ∉ taken → isOpen taken a)
    (preferred : prefers a b) (member : b ∈ as) : [b, a].Sublist as := by
  induction greedy with
  | nil => cases member
  | @cons latest taken _ first _ ih =>
    rcases List.mem_cons.mp member with rfl | earlier
    · refine List.cons_sublist_cons.mpr (List.singleton_sublist.mpr ?_)
      -- otherwise it was open when the other one was taken
      by_contra untaken
      have differ : a ≠ b := fun same => asymm a b preferred (same ▸ preferred)
      exact asymm a b preferred (first a (opened taken untaken) differ)
    · exact (ih earlier).cons latest

/-- A preference among positions that never ties. -/
structure Linear (prefers : Nat → Nat → Bool) : Prop where
  asymm : ∀ p q, prefers p q = true → ¬ prefers q p = true
  trans : ∀ p q r, prefers p q = true → prefers q r = true → prefers p r = true
  connected : ∀ p q, p ≠ q → prefers p q = true ∨ prefers q p = true

namespace Linear

variable {prefers : Nat → Nat → Bool}

private theorem not_preceded_total (h : Linear prefers) (p q : Nat) :
    prefers q p = false ∨ prefers p q = false := by
  cases back : prefers q p with
  | false => exact .inl rfl
  | true => exact .inr (by simpa using h.asymm q p back)

private theorem not_preceded_trans (h : Linear prefers) (p q r : Nat) (first : prefers q p = false)
    (second : prefers r q = false) : prefers r p = false := by
  by_contra behind
  rw [Bool.not_eq_false] at behind
  by_cases same : p = q
  · rw [same, second] at behind
    cases behind
  · have ahead := (h.connected p q same).resolve_right (by simp [first])
    rw [h.trans r p q behind ahead] at second
    cases second

end Linear

theorem linear_prefersEarlier : Linear prefersEarlier where
  asymm p q := by simp only [prefersEarlier, decide_eq_true_eq]; omega
  trans p q r := by simp only [prefersEarlier, decide_eq_true_eq]; omega
  connected p q := by simp only [prefersEarlier, decide_eq_true_eq]; omega

theorem prefersKey_eq_true_iff {K : Type} [Ord K] (keys : List K) (p q : Nat) :
    prefersKey keys p q = true ↔ compareLex (compareOn (keys[·]?)) compare p q = .lt :=
  Ordering.isLT_iff_eq_lt

theorem linear_prefersKey {K : Type} [Ord K] [Std.TransOrd K] (keys : List K) :
    Linear (prefersKey keys) where
  asymm p q := by
  -- equal keys leave the choice to the positions, which never tie
    rw [prefersKey_eq_true_iff, prefersKey_eq_true_iff]
    exact Std.OrientedCmp.not_lt_of_lt
  trans p q r := by
    simp only [prefersKey_eq_true_iff]
    exact Std.TransCmp.lt_trans
  connected p q differ := by
    rw [prefersKey_eq_true_iff, prefersKey_eq_true_iff]
    rcases order : compareLex (compareOn (keys[·]?)) compare p q with _ | _ | _
    · exact .inl rfl
    · exact absurd (Std.compare_eq_iff_eq.mp (Ordering.then_eq_eq.mp order).2) differ
    · exact .inr (Std.OrientedCmp.gt_iff_lt.mp order)

def Ready (adjacency : List (List Nat)) (taken : List Nat) (p : Nat) : Prop :=
  p < adjacency.length ∧ p ∉ taken ∧ ∀ o, Leads adjacency o p → o ∈ taken

namespace Emission

variable {adjacency : List (List Nat)} {prefers : Nat → Nat → Bool} {s t : Emission}

private theorem Balanced.mem_ready_iff_ready (h : Balanced adjacency [] s) {p : Nat} :
    p ∈ s.ready ↔ Ready adjacency s.emitted p := by
  rw [h.mem_ready_iff]
  have counted : p < adjacency.length →
      (s.remaining[p]? = some 0 ↔ ∀ o, Leads adjacency o p → o ∈ s.emitted) := by
    intro inside
    rw [h.remaining_eq p inside, List.count_nil, Nat.add_zero, Option.some.injEq,
      unconsumed_eq_zero_iff]
  constructor
  · rintro ⟨new, zero⟩
    have inside : p < adjacency.length :=
      h.length_remaining ▸ (List.getElem?_eq_some_iff.mp zero).1
    exact ⟨inside, new, (counted inside).mp zero⟩
  · rintro ⟨inside, new, all⟩
    exact ⟨new, (counted inside).mpr all⟩

def Ordered (prefers : Nat → Nat → Bool) (s : Emission) : Prop :=
  s.ready.Pairwise fun p q => prefers q p = false

namespace Ordered

private theorem start (linear : Linear prefers) (indegrees : List Nat) :
    Ordered prefers (Emission.start prefers indegrees) :=
  pairwise_stableSort prefers linear.not_preceded_total linear.not_preceded_trans _

private theorem release (linear : Linear prefers) (h : Ordered prefers s) (p : Nat) :
    Ordered prefers (s.release prefers p) := by
  unfold Emission.release
  split
  · unfold Ordered
    dsimp only
    split
    · exact pairwise_insertBy prefers linear.not_preceded_total linear.not_preceded_trans p h
    · exact h
  · exact h

private theorem foldl_release (linear : Linear prefers) (h : Ordered prefers s) (ps : List Nat) :
    Ordered prefers (ps.foldl (Emission.release prefers) s) := by
  induction ps generalizing s with
  | nil => exact h
  | cons p ps ih => exact ih (h.release linear p)

private theorem next? (linear : Linear prefers) (h : Ordered prefers s) {p : Nat}
    (step : s.next? adjacency prefers = some (p, t)) : Ordered prefers t := by
  obtain ⟨ready, hready, rfl⟩ := next?_eq_some step
  refine foldl_release linear ?_ _
  have rest := h
  rw [Ordered, hready] at rest
  exact (List.pairwise_cons.mp rest).2

end Ordered

private theorem Balanced.greedy_next? (linear : Linear prefers) (h : Balanced adjacency [] s)
    (ordered : Ordered prefers s) {p : Nat} (step : s.next? adjacency prefers = some (p, t)) :
    Ready adjacency s.emitted p ∧
      ∀ q, Ready adjacency s.emitted q → q ≠ p → prefers p q = true := by
  obtain ⟨ready, hready, -⟩ := next?_eq_some step
  rw [Ordered, hready] at ordered
  refine ⟨h.mem_ready_iff_ready.mp (hready ▸ List.mem_cons_self), fun q open_ differ => ?_⟩
  have member := h.mem_ready_iff_ready.mpr open_
  rw [hready] at member
  have behind := (List.pairwise_cons.mp ordered).1 q ((List.mem_cons.mp member).resolve_left differ)
  exact (linear.connected p q (Ne.symm differ)).resolve_right (by simp [behind])

private theorem Balanced.greedy_emits (linear : Linear prefers) (bounded : Bounded adjacency)
    (h : Balanced adjacency [] s) (ordered : Ordered prefers s)
    (greedy : Greedy (Ready adjacency) (fun p q => prefers p q = true) s.emitted) {ps : List Nat}
    (run : Emits adjacency prefers s ps t) :
    Greedy (Ready adjacency) (fun p q => prefers p q = true) t.emitted := by
  induction run with
  | stop => exact greedy
  | next step _ ih =>
    obtain ⟨opened, first⟩ := h.greedy_next? linear ordered step
    obtain ⟨balanced, emitted⟩ := h.next? bounded step
    exact ih balanced (ordered.next? linear step) (emitted ▸ .cons opened first greedy)

end Emission

variable {V E : Type} {g : Digraph V E} {prefers : Nat → Nat → Bool}

theorem greedy_emittedPositions (linear : Linear prefers) (h : g.WellFormed) :
    Greedy (Ready g.adjacency) (fun p q => prefers p q = true)
      (g.emittedPositions prefers).reverse := by
  obtain ⟨last, run, -, -, emitted⟩ := emits_emittedPositions prefers h
  rw [← emitted]
  exact (balanced_emission prefers h).greedy_emits linear h.bounded (.start linear _) .nil run

private theorem greedy_range (forward : ∀ p q, Leads g.adjacency p q → p < q) :
    ∀ n ≤ g.adjacency.length, Greedy (Ready g.adjacency) (fun p q => prefersEarlier p q = true)
      (List.range n).reverse := by
  intro n
  induction n with
  | zero => exact fun _ => .nil
  | succ n ih =>
    intro inside
    rw [List.range_succ, List.reverse_append]
    refine .cons ⟨inside, by simp, fun o leads => ?_⟩ (fun q later differ => ?_)
      (ih (Nat.le_of_succ_le inside))
    · simpa using forward o n leads
    · have behind : ¬ q < n := fun before => later.2.1 (by simpa using before)
      simp only [prefersEarlier, decide_eq_true_eq]
      omega

variable [DecidableEq V]

/-- A vertex that was not taken, all of whose predecessors were. -/
def Open (g : Digraph V E) (taken : List V) (v : V) : Prop :=
  v ∈ g.vertices ∧ v ∉ taken ∧ ∀ u, g.hasArc u v = true → u ∈ taken

namespace WellFormed

private theorem ready_iff_open (h : g.WellFormed) {ps : List Nat} {v : V} (hv : v ∈ g.vertices) :
    Ready g.adjacency ps (g.position v) ↔ g.Open (g.verticesAt ps) v := by
  have inside : g.position v < g.adjacency.length :=
    h.length_adjacency ▸ position_lt_order_iff.mpr hv
  have taken : v ∈ g.verticesAt ps ↔ g.position v ∈ ps :=
    h.mem_verticesAt.trans (and_iff_right hv)
  unfold Ready Open
  rw [taken]
  simp only [inside, hv, true_and]
  refine and_congr_right fun _ => ⟨fun all u arc => ?_, fun all o leads => ?_⟩
  · exact h.mem_verticesAt.mpr ⟨(h.mem_of_hasArc arc).1, all _ (hasArc_iff_leads.mp arc)⟩
  · obtain ⟨u, -, rfl⟩ := h.exists_position_eq leads.origin_lt
    exact (h.mem_verticesAt.mp (all u (hasArc_iff_leads.mpr leads))).2

private theorem greedy_verticesAt (h : g.WellFormed) {ps : List Nat}
    (greedy : Greedy (Ready g.adjacency) (fun p q => prefers p q = true) ps) :
    Greedy g.Open (fun v w => prefers (g.position v) (g.position w) = true)
      (g.verticesAt ps) := by
  induction greedy with
  | nil => exact .nil
  | @cons p ps ready first _ ih =>
    obtain ⟨v, hv, rfl⟩ := h.exists_position_eq ready.1
    have split : g.verticesAt (g.position v :: ps) = v :: g.verticesAt ps :=
      List.filterMap_cons_some (getElem?_position hv)
    rw [split]
    refine .cons ((h.ready_iff_open hv).mp ready) (fun w later differ => ?_) ih
    refine first _ ((h.ready_iff_open later.1).mpr later) fun same => differ ?_
    exact position_injective later.1 same

theorem greedy_emittedVertices (linear : Linear prefers) (h : g.WellFormed) :
    Greedy g.Open (fun v w => prefers (g.position v) (g.position w) = true)
      (g.emittedVertices prefers).reverse := by
  have greedy := h.greedy_verticesAt (greedy_emittedPositions linear h)
  rwa [verticesAt, List.filterMap_reverse] at greedy

theorem sublist_emittedVertices_of_source (linear : Linear prefers) (h : g.WellFormed) {v w : V}
    (hv : v ∈ g.vertices) (source : ∀ u, ¬ g.hasArc u v = true)
    (preferred : prefers (g.position v) (g.position w) = true)
    (emitted : w ∈ g.emittedVertices prefers) : [v, w].Sublist (g.emittedVertices prefers) := by
  have opened : ∀ taken, v ∉ taken → g.Open taken v := fun taken untaken =>
    ⟨hv, untaken, fun u arc => absurd arc (source u)⟩
  have backward := (h.greedy_emittedVertices linear).sublist_of_open
    (fun v w => linear.asymm (g.position v) (g.position w)) opened preferred
    (List.mem_reverse.mpr emitted)
  exact List.reverse_sublist.mp backward

theorem emittedVertices_of_forward (h : g.WellFormed)
    (forward : ∀ v w, g.hasArc v w = true → g.position v < g.position w) :
    g.emittedVertices prefersEarlier = g.vertices := by
  have leads_forward : ∀ p q, Leads g.adjacency p q → p < q := by
    intro p q leads
    obtain ⟨v, -, rfl⟩ := h.exists_position_eq leads.origin_lt
    obtain ⟨w, -, rfl⟩ := h.exists_position_eq (h.bounded _ _ leads)
    exact forward v w (hasArc_iff_leads.mpr leads)
  have acyclic : g.Acyclic := by
    intro v cycle
    have climbs : ∀ {w}, TransGen (fun v w => g.hasArc v w = true) v w →
        g.position v < g.position w := by
      intro w walk
      induction walk with
      | single arc => exact forward _ _ arc
      | tail _ arc ih => exact ih.trans (forward _ _ arc)
    exact Nat.lt_irrefl _ (climbs cycle)
  have all := (h.length_emittedVertices_iff prefersEarlier).mpr acyclic
  rw [length_emittedVertices prefersEarlier h] at all
  have same := (greedy_emittedPositions linear_prefersEarlier h).eq_of_length
    linear_prefersEarlier.asymm (greedy_range leads_forward g.order h.length_adjacency.ge)
    (by simp [all])
  rw [emittedVertices, List.reverse_injective same, verticesAt_range]

end WellFormed

end ObjectRelational.Digraph
