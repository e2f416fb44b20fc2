import Mathlib.Logic.Relation
import ObjectRelational.Digraph.Basic

set_option autoImplicit false
set_option relaxedAutoImplicit false

/-!
Reachability, between the vertices of a graph and between their positions. The algorithms work on
positions; what they compute is told of vertices.
-/

namespace ObjectRelational.Digraph

open Relation

def Leads (adjacency : List (List Nat)) (p q : Nat) : Prop := q ∈ adjacency[p]?.getD []

def Bounded (adjacency : List (List Nat)) : Prop :=
  ∀ p q, Leads adjacency p q → q < adjacency.length

theorem Leads.origin_lt {adjacency : List (List Nat)} {p q : Nat} (h : Leads adjacency p q) :
    p < adjacency.length := by
  refine Nat.lt_of_not_le fun outside => ?_
  simp [Leads, List.getElem?_eq_none outside] at h

abbrev Walk (adjacency : List (List Nat)) : Nat → Nat → Prop := ReflTransGen (Leads adjacency)

theorem mem_flatten_iff_exists_leads {adjacency : List (List Nat)} {q : Nat} :
    q ∈ adjacency.flatten ↔ ∃ p, Leads adjacency p q := by
  rw [List.mem_flatten]
  constructor
  · rintro ⟨row, member, hq⟩
    obtain ⟨p, hp⟩ := List.mem_iff_getElem?.mp member
    exact ⟨p, by simpa [Leads, hp] using hq⟩
  · rintro ⟨p, leads⟩
    have inside := leads.origin_lt
    exact ⟨adjacency[p], List.getElem_mem _,
      by simpa [Leads, List.getElem?_eq_getElem inside] using leads⟩

theorem Bounded.lt_of_transGen {adjacency : List (List Nat)} (bounded : Bounded adjacency)
    {p q : Nat} (walk : TransGen (Leads adjacency) p q) : q < adjacency.length := by
  cases walk with
  | single arc => exact bounded _ _ arc
  | tail _ arc => exact bounded _ _ arc

variable {V E : Type}

theorem adjacency_getD (g : Digraph V E) (p : Nat) :
    g.adjacency[p]?.getD [] = (g.row p).map (·.destination) := by
  simp only [adjacency, row, List.getElem?_map]
  cases g.rows[p]? <;> rfl

@[simp] theorem length_adjacency (g : Digraph V E) : g.adjacency.length = g.rows.length := by
  simp [adjacency]

theorem leads_iff_exists_arc {g : Digraph V E} {p q : Nat} :
    Leads g.adjacency p q ↔ ∃ arc ∈ g.row p, arc.destination = q := by
  simp [Leads, adjacency_getD]

theorem isSome_labelAt?_iff {g : Digraph V E} {p q : Nat} :
    (g.labelAt? p q).isSome = true ↔ Leads g.adjacency p q := by
  simp [labelAt?, leads_iff_exists_arc]

variable [DecidableEq V]

theorem hasArc_iff_leads {g : Digraph V E} {v w : V} :
    g.hasArc v w = true ↔ Leads g.adjacency (g.position v) (g.position w) :=
  isSome_labelAt?_iff

/-- A walk of any number of arcs between two values. -/
def Reaches (g : Digraph V E) : V → V → Prop := ReflTransGen fun v w => g.hasArc v w = true

/-- Each of two values is reached from the other. -/
def Mutual (g : Digraph V E) (v w : V) : Prop := g.Reaches v w ∧ g.Reaches w v

/-- A walk of at least one arc leads from the value back to it. -/
def OnCycle (g : Digraph V E) (v : V) : Prop := TransGen (fun v w => g.hasArc v w = true) v v

def Acyclic (g : Digraph V E) : Prop := ∀ v, ¬ g.OnCycle v

theorem Mutual.refl (g : Digraph V E) (v : V) : g.Mutual v v := ⟨.refl, .refl⟩

end ObjectRelational.Digraph
