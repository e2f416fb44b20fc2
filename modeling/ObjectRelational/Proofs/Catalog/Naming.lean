import Mathlib
import ObjectRelational.Proofs.Catalog.Sides

set_option autoImplicit false
set_option relaxedAutoImplicit false

/-!
The names that a supply hands out, and those of the sides of a compiled catalog. The sides that are
not part of the mapping have names that were drawn one after another. These names differ from each
other, but nothing keeps a mapped side of the same table from having one of them.
-/

namespace ObjectRelational

namespace NameSupply

variable {s t u : NameSupply}

def nameAt (s : NameSupply) (i : Nat) : String := s.stem ++ toString (s.issued + UInt64.ofNat i)

def skip (s : NameSupply) (n : Nat) : NameSupply := { s with issued := s.issued + UInt64.ofNat n }

private theorem skip_zero (s : NameSupply) : s.skip 0 = s := by
  change { s with issued := s.issued + 0 } = s
  rw [UInt64.add_zero]

private theorem skip_skip (s : NameSupply) (m n : Nat) : (s.skip m).skip n = s.skip (m + n) := by
  rw [skip, skip, skip, UInt64.ofNat_add, UInt64.add_assoc]

private theorem nameAt_skip (s : NameSupply) (m n : Nat) :
    (s.skip m).nameAt n = s.nameAt (m + n) := by
  rw [nameAt, nameAt, skip, UInt64.ofNat_add, UInt64.add_assoc]

private theorem draw_eq (s : NameSupply) : s.draw = (s.nameAt 0, s.skip 1) := by
  have first : s.nameAt 0 = s.stem ++ toString (s.issued + 0) := rfl
  rw [first, UInt64.add_zero]
  rfl

private theorem nameAt_inj (s : NameSupply) {i j : Nat} (hi : i < 2 ^ 64) (hj : j < 2 ^ 64)
    (same : s.nameAt i = s.nameAt j) : i = j := by
  have counts := (String.append_right_inj s.stem).mp same
  have issued := UInt64.toNat_inj.mp (Nat.repr_injective counts)
  have drawn : UInt64.ofNat i = UInt64.ofNat j := (UInt64.add_right_inj s.issued).mp issued
  rwa [← UInt64.toNat_inj, UInt64.toNat_ofNat_of_lt' hi, UInt64.toNat_ofNat_of_lt' hj] at drawn

/-- The names were drawn one after another, and leave the other supply. -/
structure Draws (s : NameSupply) (names : List String) (after : NameSupply) : Prop where
  counted : names = (List.range names.length).map s.nameAt
  skipped : after = s.skip names.length

namespace Draws

theorem nil (s : NameSupply) : s.Draws [] s := ⟨rfl, s.skip_zero.symm⟩

theorem append {xs ys : List String} (first : s.Draws xs t) (second : t.Draws ys u) :
    s.Draws (xs ++ ys) u := by
  obtain ⟨xs_eq, rfl⟩ := first
  obtain ⟨ys_eq, rfl⟩ := second
  constructor
  · rw [List.length_append, List.range_add, List.map_append, ← xs_eq, List.map_map]
    conv_lhs => rw [ys_eq]
    congr 1
    exact List.map_congr_left fun i _ => s.nameAt_skip _ i
  · rw [skip_skip, List.length_append]

theorem draw (s : NameSupply) : s.Draws [s.draw.1] s.draw.2 := by
  rw [draw_eq]
  exact ⟨rfl, rfl⟩

private theorem getElem?_eq {names : List String} (h : s.Draws names t) {i : Nat} {name : String}
    (there : names[i]? = some name) : name = s.nameAt i := by
  have inside := (List.getElem?_eq_some_iff.mp there).choose
  rw [h.counted] at there
  simpa [inside] using there.symm

theorem nodup {names : List String} (h : s.Draws names t) (few : names.length ≤ 2 ^ 64) :
    names.Nodup := by
  have small : ∀ i ∈ List.range names.length, i < 2 ^ 64 := fun i member =>
    (List.mem_range.mp member).trans_le few
  rw [h.counted]
  exact List.Nodup.map_on (fun i hi j hj => s.nameAt_inj (small i hi) (small j hj)) List.nodup_range

end Draws

end NameSupply

namespace Join

private theorem draws_nameFrom (supply : NameSupply) (name : Option String) :
    supply.Draws (if name.isNone then [(nameFrom supply name).1] else [])
      (nameFrom supply name).2 := by
  cases name with
  | none => exact .draw supply
  | some name => exact .nil supply

theorem draws_of_resolve {j : Join} {tables : List Table} {number : Nat} {supply after : NameSupply}
    {resolved : ResolvedJoin} (found : j.resolve tables number supply = (.ok resolved, after)) :
    supply.Draws (((Catalog.sidesOf resolved).filter (·.isRuntime)).map (·.name)) after := by
  obtain ⟨ends, pairs, -, rfl, rfl⟩ := of_resolve found
  have left := draws_nameFrom supply j.names.left
  have right := draws_nameFrom (nameFrom supply j.names.left).2 j.names.right
  convert left.append right using 1
  cases unnamedLeft : j.names.left <;> cases unnamedRight : j.names.right <;>
    simp [Catalog.sidesOf, Relationship.isRuntime, ResolvedJoin.isRuntime, Relationship.name,
      Sides.on, unnamedLeft, unnamedRight]

end Join

namespace Catalog

private theorem draws_of_resolveJoins {tables : List Table} {number : Nat} {joins : List Join}
    {supply after : NameSupply} {resolved : List ResolvedJoin}
    (found : resolveJoins tables number joins supply = (.ok resolved, after)) :
    supply.Draws (((resolved.flatMap sidesOf).filter (·.isRuntime)).map (·.name)) after := by
  induction joins generalizing number supply after resolved with
  | nil =>
    obtain ⟨same, rfl⟩ := Prod.mk.inj found
    obtain rfl := Except.ok.inj same
    exact .nil supply
  | cons j joins ih =>
    obtain ⟨first, rest, between, one, others, rfl⟩ := of_resolveJoins_cons found
    rw [List.flatMap_cons, List.filter_append, List.map_append]
    exact (Join.draws_of_resolve one).append (ih others)

def runtimeSides (c : Catalog) : List Relationship := c.sides.filter (·.isRuntime)

/-- What identifies a mapped relationship: the table where it starts, and its name. -/
def sideKey (r : Relationship) : String × String := (r.source.name, r.name)

section Compiled

variable {maps : List DataMap} {supply after : NameSupply} {c : Catalog}

private theorem draws_runtimeSides (compiled : compile maps supply = (.ok c, after)) :
    supply.Draws (c.runtimeSides.map (·.name)) after :=
  draws_of_resolveJoins (stages_of_compile compiled).joins

private theorem name_eq_nameAt (compiled : compile maps supply = (.ok c, after)) {i : Nat}
    {s : Relationship} (there : c.runtimeSides[i]? = some s) : s.name = supply.nameAt i :=
  (draws_runtimeSides compiled).getElem?_eq (by rw [List.getElem?_map, there]; rfl)

theorem nodup_sides (compiled : compile maps supply = (.ok c, after)) : c.sides.Nodup := by
  have numbers : c.joins.map (·.number) = List.range (maps.flatMap (·.joins)).length := by
    have numbered := map_number_of_resolveJoins (stages_of_compile compiled).joins
    have seconds := congrArg (List.map Prod.snd) numbered
    rwa [List.map_map, List.zipIdx_map_snd, ← List.range_eq_range'] at seconds
  have joins : c.joins.Nodup := List.Nodup.of_map _ (numbers ▸ List.nodup_range)
  rw [sides, List.nodup_flatMap]
  refine ⟨fun j _ => by simp [sidesOf], joins.imp ?_⟩
  intro j k differ r left right
  have join_of_mem : ∀ {l : ResolvedJoin}, r ∈ sidesOf l → r.join = l := by
    intro l member
    rcases List.mem_pair.mp member with rfl | rfl <;> rfl
  exact differ ((join_of_mem left).symm.trans (join_of_mem right))

private theorem eq_of_sideKey (compiled : compile maps supply = (.ok c, after)) {r s : Relationship}
    (hr : r ∈ c.sides) (hs : s ∈ c.sides) (mapped : r.isRuntime = false)
    (mapped' : s.isRuntime = false) (same : sideKey r = sideKey s) : r = s := by
  obtain ⟨table, name⟩ := Prod.mk.inj same
  have found : ∀ t ∈ c.sides, t.isRuntime = false →
      c.relationship? t.source.name t.name = some t := by
    intro t member isMapped
    obtain ⟨n, named⟩ :=
      Option.isSome_iff_exists.mp (Relationship.isRuntime_eq_false_iff.mp isMapped)
    have listed := (isDeclared_of_mem_sides compiled member).name n named
    exact (relationship?_eq_some_iff compiled).mpr ⟨member, rfl, listed ▸ named⟩
  have first := found r hr mapped
  rw [table, name, found s hs mapped'] at first
  exact (Option.some.inj first).symm

private theorem eq_of_drawn_name (compiled : compile maps supply = (.ok c, after))
    (few : c.runtimeSides.length ≤ 2 ^ 64) {r s : Relationship} (hr : r ∈ c.runtimeSides)
    (hs : s ∈ c.runtimeSides) (same : r.name = s.name) : r = s := by
  have names := (draws_runtimeSides compiled).nodup (by rwa [List.length_map])
  exact List.inj_on_of_nodup_map names hr hs same

private theorem isRuntime_of_sideKey (compiled : compile maps supply = (.ok c, after))
    (few : c.runtimeSides.length ≤ 2 ^ 64) {r s : Relationship} (hr : r ∈ c.sides)
    (hs : s ∈ c.sides) (differ : r ≠ s) (same : sideKey r = sideKey s) :
    r.isRuntime = !s.isRuntime := by
  cases kind : r.isRuntime with
  | false =>
    cases kind' : s.isRuntime with
    | false => exact absurd (eq_of_sideKey compiled hr hs kind kind' same) differ
    | true => rfl
  | true =>
    cases kind' : s.isRuntime with
    | false => rfl
    | true =>
      have one := List.mem_filter.mpr ⟨hr, kind⟩
      have other := List.mem_filter.mpr ⟨hs, kind'⟩
      exact absurd (eq_of_drawn_name compiled few one other (Prod.mk.inj same).2) differ

/-- The sides that are not mapped have names drawn one after another, which leave the supply as many
names behind. Two sides of one table with one name are a mapped one and one that is not. So no two
sides have both in common as long as no mapped side has a name that is drawn for its table. -/
theorem nodup_sideKeys_iff (compiled : compile maps supply = (.ok c, after))
    (few : c.runtimeSides.length ≤ 2 ^ 64) :
    c.runtimeSides.map (·.name) = (List.range c.runtimeSides.length).map supply.nameAt ∧
      after = supply.skip c.runtimeSides.length ∧ c.sides.Nodup ∧
      (∀ r ∈ c.sides, ∀ s ∈ c.sides, r ≠ s → sideKey r = sideKey s →
        r.isRuntime = !s.isRuntime) ∧
      ((c.sides.map sideKey).Nodup ↔
        ∀ r ∈ c.sides, r.isRuntime = false → ∀ i s, c.runtimeSides[i]? = some s →
          s.source.name = r.source.name → r.name ≠ supply.nameAt i) := by
  have draws := draws_runtimeSides compiled
  refine ⟨by simpa using draws.counted, by simpa using draws.skipped, nodup_sides compiled,
    fun r hr s hs => isRuntime_of_sideKey compiled few hr hs, ?_, ?_⟩
  · intro apart r hr mapped i s there table name
    obtain ⟨hs, drawn⟩ := List.mem_filter.mp (List.mem_of_getElem? there)
    have same : sideKey r = sideKey s :=
      Prod.ext table.symm (name.trans (name_eq_nameAt compiled there).symm)
    have equal := List.inj_on_of_nodup_map apart hr hs same
    rw [equal, drawn] at mapped
    cases mapped
  · intro free
    -- of two sides with one key, one is mapped and the other has a drawn name
    have clash : ∀ r ∈ c.sides, ∀ s ∈ c.sides, r.isRuntime = false → s.isRuntime = true →
        sideKey r ≠ sideKey s := by
      intro r hr s hs mapped drawn same
      obtain ⟨i, there⟩ := List.mem_iff_getElem?.mp (List.mem_filter.mpr ⟨hs, drawn⟩)
      obtain ⟨table, name⟩ := Prod.mk.inj same
      exact free r hr mapped i s there table.symm (name.trans (name_eq_nameAt compiled there))
    refine List.Nodup.map_on (fun r hr s hs same => ?_) (nodup_sides compiled)
    by_contra differ
    have kinds := isRuntime_of_sideKey compiled few hr hs differ same
    cases kind : s.isRuntime with
    | true => exact clash r hr s hs (by simpa [kind] using kinds) kind same
    | false => exact clash s hs r hr kind (by simpa [kind] using kinds) same.symm

end Compiled

end Catalog

namespace Roster

def peopleWith (names : Sides (Option String)) : DataMap :=
  { people with joins := people.joins.map fun j => { j with names } }

def teamsWith (name : String) : DataMap :=
  { teams with joins := teams.joins.map fun j => { j with names := ⟨some name, some "team"⟩ } }

def lastCount : NameSupply := ⟨"rt", 18446744073709551615⟩

def wrapped : Catalog :=
  match Catalog.compile [peopleWith ⟨none, none⟩, teamsWith "rt0"] lastCount with
  | (.ok c, _) => c
  | (.error _, _) => ⟨[], [], [], []⟩

private theorem compile_wrapped :
    Catalog.compile [peopleWith ⟨none, none⟩, teamsWith "rt0"] lastCount =
      (.ok wrapped, ⟨"rt", 1⟩) := rfl

end Roster

namespace Catalog

open Roster

/-- A drawn name is that of a mapped side as well, but of one that starts at another table. -/
theorem nodup_sideKeys_wrapped :
    wrapped.runtimeSides.length ≤ 2 ^ 64 ∧
      wrapped.sides.map sideKey =
        [("PERSON", "rt18446744073709551615"), ("PERSON", "rt0"), ("TEAM", "rt0"),
          ("PERSON", "team")] ∧
      (wrapped.sides.map sideKey).Nodup := by
  have few : wrapped.runtimeSides.length ≤ 2 ^ 64 := by decide +kernel
  obtain ⟨-, -, -, -, apart⟩ := nodup_sideKeys_iff compile_wrapped few
  refine ⟨few, by decide +kernel, apart.mpr fun r hr mapped i s there table name => ?_⟩
  have none_shared : ∀ r ∈ wrapped.sides, r.isRuntime = false → ∀ s ∈ wrapped.runtimeSides,
      s.source.name = r.source.name → r.name ≠ s.name := by decide +kernel
  exact none_shared r hr mapped s (List.mem_of_getElem? there) table
    (name.trans (name_eq_nameAt compile_wrapped there).symm)

/-- The way to a boss is mapped under the name that is then drawn for the way back. -/
theorem sideKey_shared :
    ∃ c after, compile [peopleWith ⟨some "runtimeRelationship0", none⟩] {} = (.ok c, after) ∧
      ∃ r ∈ c.sides, ∃ s ∈ c.sides, r ≠ s ∧ sideKey r = sideKey s :=
  ⟨_, _, rfl, by decide +kernel⟩

end Catalog

end ObjectRelational
