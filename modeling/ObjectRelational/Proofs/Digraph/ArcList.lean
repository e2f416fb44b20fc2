import ObjectRelational.Proofs.Data.List

set_option autoImplicit false
set_option relaxedAutoImplicit false

/-!
A graph as a plain list of arcs. The vertices are kept in the order of their first mention, and the
arcs in the order in which their pairs were first put; a label that is overwritten or changed stays
where it is. What the list holds is read off from the edits that made it.
-/

namespace ObjectRelational

inductive Edit (V E : Type)
  | addVertex (v : V)
  | putArc (v w : V) (label : E)
  | adjustArc (v w : V) (change : E → E)

namespace Edit

variable {V E : Type}

def mentioned : Edit V E → List V
  | .addVertex v => [v]
  | .putArc v w _ => [v, w]
  | .adjustArc _ _ _ => []

def pairs : Edit V E → List (V × V)
  | .putArc v w _ => [(v, w)]
  | .addVertex _ | .adjustArc _ _ _ => []

def labelAfter [DecidableEq V] (v w : V) (label : Option E) : Edit V E → Option E
  | .addVertex _ => label
  | .putArc x y new => if x = v ∧ y = w then some new else label
  | .adjustArc x y change => if x = v ∧ y = w then label.map change else label

end Edit

structure GraphAnswers (V E : Type) where
  vertices : List V
  order : Nat
  isEmpty : Bool
  hasVertex : V → Bool
  position? : V → Option Nat
  /-- Grouped by origin. -/
  arcs : List (V × V × E)
  size : Nat
  label? : V → V → Option E
  hasArc : V → V → Bool
  successors : V → List V
  indegree : V → Nat
  outdegree : V → Nat

/-- Vertices in the order of their first mention, and one label for each pair, in the order in which
the pairs were first put. -/
structure ArcList (V E : Type) where
  vertices : List V := []
  arcs : List (V × V × E) := []

namespace ArcList

variable {V E : Type}

def pairs (r : ArcList V E) : List (V × V) := r.arcs.map fun a => (a.1, a.2.1)

variable [DecidableEq V]

def mention (r : ArcList V E) (v : V) : ArcList V E :=
  if v ∈ r.vertices then r else { r with vertices := r.vertices ++ [v] }

def label? (r : ArcList V E) (v w : V) : Option E :=
  (r.arcs.find? fun a => a.1 = v ∧ a.2.1 = w).map (·.2.2)

def relabel (v w : V) (change : E → E) (a : V × V × E) : V × V × E :=
  if a.1 = v ∧ a.2.1 = w then (a.1, a.2.1, change a.2.2) else a

def adjust (r : ArcList V E) (v w : V) (change : E → E) : ArcList V E :=
  { r with arcs := r.arcs.map (relabel v w change) }

/-- Overwrites the label of a pair where it stands, or adds the pair behind the others. -/
def put (r : ArcList V E) (v w : V) (label : E) : ArcList V E :=
  if (r.label? v w).isSome then r.adjust v w fun _ => label
  else { r with arcs := r.arcs ++ [(v, w, label)] }

def edit (r : ArcList V E) : Edit V E → ArcList V E
  | .addVertex v => r.mention v
  | .putArc v w label => ((r.mention v).mention w).put v w label
  | .adjustArc v w change => r.adjust v w change

def editAll (r : ArcList V E) (edits : List (Edit V E)) : ArcList V E := edits.foldl edit r

def leaving (r : ArcList V E) (v : V) : List (V × V × E) := r.arcs.filter (·.1 = v)

def answers (r : ArcList V E) : GraphAnswers V E where
  vertices := r.vertices
  order := r.vertices.length
  isEmpty := r.vertices.isEmpty
  hasVertex v := decide (v ∈ r.vertices)
  position? v := r.vertices.idxOf? v
  arcs := r.vertices.flatMap r.leaving
  size := r.arcs.length
  label? := r.label?
  hasArc v w := (r.label? v w).isSome
  successors v := (r.leaving v).map (·.2.1)
  indegree v := r.arcs.countP (·.2.1 = v)
  outdegree v := r.arcs.countP (·.1 = v)

@[simp] theorem relabel_fst (v w : V) (change : E → E) (a : V × V × E) :
    (relabel v w change a).1 = a.1 := by
  unfold relabel
  split <;> rfl

@[simp] theorem relabel_snd_fst (v w : V) (change : E → E) (a : V × V × E) :
    (relabel v w change a).2.1 = a.2.1 := by
  unfold relabel
  split <;> rfl

variable {r : ArcList V E}

theorem leaving_adjust (r : ArcList V E) (v w : V) (change : E → E) (u : V) :
    (r.adjust v w change).leaving u = (r.leaving u).map (relabel v w change) := by
  simp [leaving, adjust, List.filter_map, Function.comp_def]

theorem arcs_answers_adjust (r : ArcList V E) (v w : V) (change : E → E) :
    (r.adjust v w change).answers.arcs = r.answers.arcs.map (relabel v w change) := by
  change r.vertices.flatMap _ = (r.vertices.flatMap _).map _
  rw [List.map_flatMap]
  exact congrArg (List.flatMap · _) (funext (r.leaving_adjust v w change))

private theorem isSome_label?_iff {v w : V} : (r.label? v w).isSome = true ↔ (v, w) ∈ r.pairs := by
  simp only [label?, Option.isSome_map, List.find?_isSome, decide_eq_true_eq, pairs, List.mem_map,
    Prod.mk.injEq]

@[simp] theorem label?_mention (r : ArcList V E) (u v w : V) :
    (r.mention u).label? v w = r.label? v w := by
  unfold mention
  split <;> rfl

@[simp] private theorem pairs_mention (r : ArcList V E) (u : V) :
    (r.mention u).pairs = r.pairs := by
  unfold mention
  split <;> rfl

@[simp] private theorem pairs_adjust (r : ArcList V E) (v w : V) (change : E → E) :
    (r.adjust v w change).pairs = r.pairs := by
  simp [pairs, adjust, Function.comp_def]

private theorem label?_adjust (r : ArcList V E) (x y : V) (change : E → E) (v w : V) :
    (r.adjust x y change).label? v w =
      if x = v ∧ y = w then (r.label? v w).map change else r.label? v w := by
  simp only [label?, adjust, List.find?_map, Function.comp_def, relabel_fst, relabel_snd_fst]
  cases found : r.arcs.find? fun a => a.1 = v ∧ a.2.1 = w with
  | none => simp
  | some a =>
    have ends : a.1 = v ∧ a.2.1 = w := by simpa using List.find?_some found
    simp only [Option.map_some, relabel, ends, eq_comm (a := v), eq_comm (a := w)]
    split <;> rfl

private theorem label?_put (r : ArcList V E) (x y : V) (label : E) (v w : V) :
    (r.put x y label).label? v w = if x = v ∧ y = w then some label else r.label? v w := by
  unfold put
  split
  · rename_i present
    rw [label?_adjust]
    refine if_ctx_congr Iff.rfl (fun both => ?_) fun _ => rfl
    obtain ⟨old, hold⟩ := Option.isSome_iff_exists.mp present
    rw [← both.1, ← both.2, hold]
    rfl
  · rename_i absent
    have nothing : r.label? x y = none := by simpa using absent
    simp only [label?, List.find?_append, List.find?_singleton, decide_eq_true_eq] at nothing ⊢
    split
    · rename_i both
      rw [← both.1, ← both.2, Option.map_eq_none_iff.mp nothing]
      rfl
    · rw [Option.or_none]

private theorem vertices_put (r : ArcList V E) (v w : V) (label : E) :
    (r.put v w label).vertices = r.vertices := by
  unfold put
  split <;> rfl

/-! What the edits tell. -/

private theorem vertices_mention {mentioned : List V} (h : r.vertices = mentioned.eraseDups)
    (v : V) : (r.mention v).vertices = (mentioned ++ [v]).eraseDups := by
  have there : v ∈ r.vertices ↔ v ∈ mentioned := h ▸ List.mem_eraseDups
  rw [eraseDups_concat, mention]
  simp only [← there, ← h]
  split <;> rfl

private theorem pairs_put {before : List (V × V)} (h : r.pairs = before.eraseDups) (v w : V)
    (label : E) : (r.put v w label).pairs = (before ++ [(v, w)]).eraseDups := by
  have there : (r.label? v w).isSome = true ↔ (v, w) ∈ before :=
    isSome_label?_iff.trans (h ▸ List.mem_eraseDups)
  rw [eraseDups_concat, put]
  simp only [← there, ← h]
  split
  · exact r.pairs_adjust v w _
  · exact List.map_append

/-- The list holds what the edits say: vertices by their first mention, pairs by their first put,
and under each pair what was last put, with the changes made to it since. -/
structure Recounts (r : ArcList V E) (edits : List (Edit V E)) : Prop where
  vertices : r.vertices = (edits.flatMap Edit.mentioned).eraseDups
  pairs : r.pairs = (edits.flatMap Edit.pairs).eraseDups
  label?_eq : ∀ v w, r.label? v w = edits.foldl (fun label e => e.labelAfter v w label) none

namespace Recounts

variable {edits : List (Edit V E)}

private theorem empty : ({} : ArcList V E).Recounts [] := ⟨rfl, rfl, fun _ _ => rfl⟩

private theorem edit (h : r.Recounts edits) (e : Edit V E) :
    (r.edit e).Recounts (edits ++ [e]) := by
  have labels : ∀ v w, (edits ++ [e]).foldl (fun label e => e.labelAfter v w label) none =
      e.labelAfter v w (r.label? v w) := by
    intro v w
    rw [List.foldl_append, ← h.label?_eq]
    rfl
  have mentioned : (edits ++ [e]).flatMap Edit.mentioned =
      edits.flatMap Edit.mentioned ++ e.mentioned := by simp
  have pairs : (edits ++ [e]).flatMap Edit.pairs = edits.flatMap Edit.pairs ++ e.pairs := by simp
  cases e with
  | addVertex v =>
    refine ⟨?_, ?_, fun x y => ?_⟩
    · rw [mentioned]
      exact vertices_mention h.vertices v
    · rw [pairs]
      exact (r.pairs_mention v).trans (h.pairs.trans (by simp [Edit.pairs]))
    · rw [labels]
      exact r.label?_mention v x y
  | putArc v w label =>
    refine ⟨?_, ?_, fun x y => ?_⟩
    · rw [mentioned]
      have twice := vertices_mention (vertices_mention h.vertices v) w
      exact (vertices_put _ v w label).trans (twice.trans (by simp [Edit.mentioned]))
    · rw [pairs]
      refine pairs_put ?_ v w label
      rw [pairs_mention, pairs_mention, h.pairs]
    · rw [labels]
      refine (label?_put _ v w label x y).trans ?_
      rw [label?_mention, label?_mention]
      rfl
  | adjustArc v w change =>
    refine ⟨?_, ?_, fun x y => ?_⟩
    · rw [mentioned]
      exact h.vertices.trans (by simp [Edit.mentioned])
    · rw [pairs]
      exact (r.pairs_adjust v w change).trans (h.pairs.trans (by simp [Edit.pairs]))
    · rw [labels]
      exact r.label?_adjust v w change x y

theorem nodup_successors (h : r.Recounts edits) (v : V) : (r.answers.successors v).Nodup := by
  have distinct : ((r.leaving v).map fun a => (a.1, a.2.1)).Nodup :=
    (h.pairs ▸ nodup_eraseDups _ : r.pairs.Nodup).sublist (List.filter_sublist.map _)
  have pairs : (r.leaving v).map (fun a => (a.1, a.2.1)) =
      (r.answers.successors v).map (v, ·) := by
    rw [answers, List.map_map]
    refine List.map_congr_left fun a member => ?_
    have origin : a.1 = v := by simpa using (List.mem_filter.mp member).2
    rw [origin]
    rfl
  exact List.Nodup.of_map _ (pairs ▸ distinct)

end Recounts

theorem recounts_editAll (edits : List (Edit V E)) :
    (editAll {} edits : ArcList V E).Recounts edits := by
  induction edits using List.reverseRecOn with
  | nil => exact .empty
  | append_singleton edits e ih =>
    rw [editAll, List.foldl_append]
    exact ih.edit e

end ArcList

end ObjectRelational
