import ObjectRelational.Commit.Index
import ObjectRelational.Proofs.Catalog.Resolved
import ObjectRelational.Proofs.Digraph.Built

set_option autoImplicit false
set_option relaxedAutoImplicit false

/-!
The graph of a catalog has the names of its tables as vertices, and its arcs are those that the
relationships ask for. So walks in it are walks from table to table.
-/

namespace ObjectRelational

open Relation

namespace Relationship

/-- The source row refers to the target row, by a column of its key. -/
def Constraining (r : Relationship) : Prop :=
  ((r.isToMany = false ∧ r.isToDependent = false) ∨ r.isToMaster = true) ∧
    ∃ column ∈ r.targetColumns, column.primaryKey = true

theorem constrains_iff (r : Relationship) : r.constrains = true ↔ r.Constraining := by
  simp [constrains, refers, referencedKey, Constraining]

end Relationship

namespace Catalog

/-- A relationship asks for the first table before the second. -/
def Precedes (c : Catalog) (t s : Table) : Prop :=
  ∃ r ∈ c.sides, r.Constraining ∧ r.target = t ∧ r.source = s

/-- Each of two tables has to be written before the other, if through further tables. -/
def Entangled (c : Catalog) (t s : Table) : Prop :=
  ReflTransGen c.Precedes t s ∧ ReflTransGen c.Precedes s t

end Catalog

namespace CommitIndex

open ObjectRelational.Digraph

variable {c : Catalog}

private theorem mem_constraints {r : Relationship} :
    r ∈ constraints c ↔ r ∈ c.sides ∧ r.Constraining := by
  rw [constraints, List.mem_filter, r.constrains_iff]

private theorem dependencyGraph_spec (h : c.Resolved) :
    (dependencyGraph c).Built ∧ (dependencyGraph c).vertices = c.tables.map (·.name) ∧
      ∀ x y, (dependencyGraph c).hasArc x y = true ↔
        ∃ r ∈ constraints c, r.target.name = x ∧ r.source.name = y := by
  have lays : Lays (fun g (r : Relationship) =>
      g.appendArc r.target.name r.source.name r.referencedKey)
      (fun r => r.target.name) (fun r => r.source.name) :=
    { built := fun built => built.appendArc _ _ _
      vertices := fun target source => vertices_appendArc target source _
      arcs := fun built target source => built.wellFormed.hasArc_appendArc target source _ }
  refine lays.foldl_ofVertices h.distinct fun r member => ?_
  have side := (mem_constraints.mp member).1
  exact ⟨List.mem_map_of_mem (h.target_mem side), List.mem_map_of_mem (h.source_mem side)⟩

theorem dependencyGraph_built (h : c.Resolved) : (dependencyGraph c).Built :=
  (dependencyGraph_spec h).1

theorem vertices_dependencyGraph (h : c.Resolved) :
    (dependencyGraph c).vertices = c.tables.map (·.name) := (dependencyGraph_spec h).2.1

theorem hasArc_dependencyGraph (h : c.Resolved) {x y : String} :
    (dependencyGraph c).hasArc x y = true ↔ ∃ t s, c.Precedes t s ∧ t.name = x ∧ s.name = y := by
  rw [(dependencyGraph_spec h).2.2]
  constructor
  · rintro ⟨r, member, rfl, rfl⟩
    obtain ⟨side, constraining⟩ := mem_constraints.mp member
    exact ⟨_, _, ⟨r, side, constraining, rfl, rfl⟩, rfl, rfl⟩
  · rintro ⟨t, s, ⟨r, side, constraining, rfl, rfl⟩, rfl, rfl⟩
    exact ⟨r, mem_constraints.mpr ⟨side, constraining⟩, rfl, rfl⟩

private theorem reaches_dependencyGraph_iff (h : c.Resolved) {t s : Table} (ht : t ∈ c.tables)
    (hs : s ∈ c.tables) :
    (dependencyGraph c).Reaches t.name s.name ↔ ReflTransGen c.Precedes t s := by
  constructor
  · intro walk
    have follow : ∀ {y}, (dependencyGraph c).Reaches t.name y →
        ∃ u ∈ c.tables, u.name = y ∧ ReflTransGen c.Precedes t u := by
      intro y walk
      induction walk with
      | refl => exact ⟨t, ht, rfl, .refl⟩
      | tail _ arc ih =>
        obtain ⟨u, hu, rfl, reached⟩ := ih
        obtain ⟨u', w, precedes, same, rfl⟩ := (hasArc_dependencyGraph h).mp arc
        have ⟨r, side, _, htarget, hsource⟩ := precedes
        obtain rfl : u' = u :=
          h.eq_of_name (htarget ▸ h.target_mem side) hu same
        exact ⟨w, hsource ▸ h.source_mem side, rfl, reached.tail precedes⟩
    obtain ⟨u, hu, same, reached⟩ := follow walk
    exact h.eq_of_name hu hs same ▸ reached
  · exact ReflTransGen.lift Table.name (fun u w precedes =>
      (hasArc_dependencyGraph h).mpr ⟨u, w, precedes, rfl, rfl⟩) t s

theorem mutual_dependencyGraph_iff (h : c.Resolved) {t s : Table} (ht : t ∈ c.tables)
    (hs : s ∈ c.tables) :
    (dependencyGraph c).Mutual t.name s.name ↔ c.Entangled t s :=
  and_congr (reaches_dependencyGraph_iff h ht hs) (reaches_dependencyGraph_iff h hs ht)

end CommitIndex

end ObjectRelational
