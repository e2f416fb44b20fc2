import Mathlib.Data.List.Flatten
import ObjectRelational.Proofs.Catalog.Sides
import ObjectRelational.Proofs.Catalog.Verdict
import ObjectRelational.Proofs.Schema.JoinOrder
import ObjectRelational.Schema.Descriptor

set_option autoImplicit false
set_option relaxedAutoImplicit false

/-!
Descriptors of data maps that have their joins in different orders. Where the left names tell the
joins of a table apart, as they do in every schema that compiles, the text is the same.
-/

namespace ObjectRelational

namespace Join

def unowned (j : Join) : Join := { j with dataMap := "" }

def leftEnd (j : Join) : String × Option String := (j.entities.left, j.names.left)

private theorem eq_of_compareKeys {k l : String × String} (tied : compareKeys k l = .eq) :
    k = l := by
  obtain ⟨tables, names⟩ := Ordering.then_eq_eq.mp tied
  exact Prod.ext (Std.LawfulEqOrd.eq_of_compare tables) (Std.LawfulEqOrd.eq_of_compare names)

private theorem leftEnd_eq_of_tied {a b : Join} (first : a.names.left.isSome = true)
    (second : b.names.left.isSome = true) (tied : a.serializationOrder b = .eq) :
    a.leftEnd = b.leftEnd := by
  have alike : a.NamedAlike b := fun _ => first.trans second.symm
  rw [alike.serializationOrder_eq] at tied
  obtain ⟨table, name⟩ := Prod.mk.inj (eq_of_compareKeys tied)
  obtain ⟨m, hm⟩ := Option.isSome_iff_exists.mp first
  obtain ⟨n, hn⟩ := Option.isSome_iff_exists.mp second
  rw [hm, hn] at name
  rw [leftEnd, leftEnd, table, hm, hn]
  exact congrArg (b.entities.left, some ·) name

private theorem leftEnd_sublist_namedSides {j : Join} (named : j.names.left.isSome = true) :
    [j.leftEnd].Sublist (j.namedSides.map fun side => (side.1, some side.2)) := by
  obtain ⟨n, hn⟩ := Option.isSome_iff_exists.mp named
  have first : j.names.on .left = some n := hn
  rw [namedSides, List.filterMap_cons, first, leftEnd, hn]
  exact List.singleton_sublist.mpr List.mem_cons_self

end Join

namespace DataMap

variable {m m' : DataMap}

def unowned (m : DataMap) : DataMap := { m with joins := m.joins.map Join.unowned }

private theorem orderedJoins_unowned (m : DataMap) :
    m.unowned.orderedJoins = m.orderedJoins.map Join.unowned :=
  (Order.map_stableSort Join.unowned (fun a b => (a.serializationOrder b).isLT) m.joins).symm

private theorem render_unowned (m : DataMap) : m.unowned.render = m.render := by
  have joins : m.unowned.orderedJoins.map Join.toJson = m.orderedJoins.map Join.toJson := by
    rw [orderedJoins_unowned, List.map_map]
    rfl
  rw [render, render, toJson, toJson, joins]
  rfl

/-- The same declarations, but for the order of the joins and the data maps that these tell. -/
structure Rearranges (m m' : DataMap) : Prop where
  name : m.name = m'.name
  tables : m.tables = m'.tables
  objects : m.objects = m'.objects
  joins : m.unowned.joins.Perm m'.unowned.joins

private theorem orderedJoins_eq_of_perm (perm : m.joins.Perm m'.joins)
    (named : ∀ j ∈ m.joins, j.names.left.isSome = true)
    (distinct : (m.joins.map Join.leftEnd).Nodup) : m.orderedJoins = m'.orderedJoins := by
  have named' : ∀ j ∈ m'.joins, j.names.left.isSome = true := fun j member =>
    named j (perm.mem_iff.mpr member)
  have sorted := pairwise_orderedJoins fun a ha b hb _ => (named a ha).trans (named b hb).symm
  have sorted' := pairwise_orderedJoins fun a ha b hb _ => (named' a ha).trans (named' b hb).symm
  have member {j : Join} (m : DataMap) : j ∈ m.orderedJoins ↔ j ∈ m.joins := Order.mem_stableSort
  have same : m.orderedJoins.Perm m'.orderedJoins :=
    ((Order.stableSort_perm _ _).trans perm).trans (Order.stableSort_perm _ _).symm
  apply same.eq_of_pairwise ?_ sorted sorted'
  intro a b ha hb behind ahead
  have ha := (member m).mp ha
  have hb := perm.mem_iff.mpr ((member m').mp hb)
  have tied : a.serializationOrder b = .eq := by
    rw [← Join.serializationOrder_swap a b] at behind
    cases order : a.serializationOrder b with
    | lt => rw [order] at ahead; cases ahead
    | eq => rfl
    | gt => rw [order] at behind; cases behind
  exact List.inj_on_of_nodup_map distinct ha hb
    (Join.leftEnd_eq_of_tied (named a ha) (named b hb) tied)

private theorem nodup_leftEnds_of_compile {maps : List DataMap} (member : m ∈ maps)
    {supply after : NameSupply} {c : Catalog}
    (compiled : Catalog.compile maps supply = (.ok c, after))
    (named : ∀ j ∈ m.joins, j.names.left.isSome = true) :
    (m.joins.map Join.leftEnd).Nodup := by
  have formed : Catalog.WellFormed maps := by
    have reports := Catalog.reports_compile maps supply
    exact Catalog.violations_eq_nil_iff.mp (reports.exists_ok_iff.mp ⟨c, by rw [compiled]⟩)
  have mine : (m.joins.flatMap Join.namedSides).Sublist
      ((maps.flatMap (·.joins)).flatMap Join.namedSides) :=
    (List.sublist_flatten_of_mem (List.mem_map_of_mem member)).flatMap _
  have apart : Function.Injective fun side : String × String => (side.1, some side.2) := by
    rintro ⟨table, name⟩ ⟨table', name'⟩ same
    obtain ⟨rfl, some_eq⟩ := Prod.mk.inj same
    exact Prod.ext rfl (Option.some.inj some_eq)
  have ends := List.Sublist.flatMap_right m.joins fun j hj =>
    Join.leftEnd_sublist_namedSides (named j hj)
  rw [← List.map_eq_flatMap, ← List.map_flatMap] at ends
  exact ends.nodup ((mine.nodup formed.sides).map apart)

/-- Maps that differ in the order of their joins are written alike, if their left directions are
mapped and differ in table or name. A schema compiles only if the latter is so. -/
theorem render_of_rearranges (rearranges : m.Rearranges m')
    (named : ∀ j ∈ m.joins, j.names.left.isSome = true) :
    ((m.joins.map Join.leftEnd).Nodup → m.render = m'.render) ∧
      ∀ maps supply c after, m ∈ maps → Catalog.compile maps supply = (.ok c, after) →
        (m.joins.map Join.leftEnd).Nodup := by
  constructor
  · intro distinct
    have ends : m.unowned.joins.map Join.leftEnd = m.joins.map Join.leftEnd := List.map_map
    have named' : ∀ j ∈ m.unowned.joins, j.names.left.isSome = true := by
      intro j member
      obtain ⟨i, hi, rfl⟩ := List.mem_map.mp member
      exact named i hi
    have joins := orderedJoins_eq_of_perm rearranges.joins named' (ends ▸ distinct)
    have written : m.unowned.toJson = m'.unowned.toJson := by
      rw [toJson, toJson, joins]
      simp only [unowned, rearranges.name, rearranges.tables, rearranges.objects]
    rw [← render_unowned m, ← render_unowned m', render, render, written]
  · intro maps supply c after member compiled
    exact nodup_leftEnds_of_compile member compiled named

end DataMap

namespace Roster

def staff : DataMap where
  name := "staff"
  tables := [person]
  joins := people.joins ++ people.joins.map fun j => { j with names := ⟨some "adviser", none⟩ }

def moved : DataMap :=
  { staff with joins := staff.joins.reverse.map fun j => { j with dataMap := "attic" } }

end Roster

namespace DataMap

open Roster

theorem render_of_rearranges_staff :
    staff.Rearranges moved ∧ (∀ j ∈ staff.joins, j.names.left.isSome = true) ∧
      (staff.joins.map Join.leftEnd).Nodup ∧ staff.joins ≠ moved.joins ∧
      staff.render = moved.render := by
  have rearranges : staff.Rearranges moved := ⟨rfl, rfl, rfl, by decide⟩
  have named : ∀ j ∈ staff.joins, j.names.left.isSome = true := by decide
  obtain ⟨alike, enforced⟩ := render_of_rearranges rearranges named
  have distinct := enforced [staff] {} _ _ List.mem_cons_self rfl
  exact ⟨rearranges, named, distinct, by decide, alike distinct⟩

end DataMap

end ObjectRelational
