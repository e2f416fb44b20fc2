import Mathlib.Data.List.Forall2
import Mathlib.Data.List.Induction
import Mathlib.Data.List.NodupEquivFin
import Mathlib.Data.List.Sort

set_option autoImplicit false
set_option relaxedAutoImplicit false

/-!
Lists of items with names, positions and repetitions, and lists that go together item by item.
-/

namespace ObjectRelational

section Names

variable {α K : Type} [BEq K] [LawfulBEq K] {name : α → K} {items : List α}

theorem find?_of_nodup (distinct : (items.map name).Nodup) {item : α} (member : item ∈ items) :
    items.find? (name · == name item) = some item := by
  induction items with
  | nil => cases member
  | cons first items ih =>
    rw [List.map_cons, List.nodup_cons] at distinct
    rcases List.mem_cons.mp member with rfl | member
    · exact List.find?_cons_of_pos (by simp)
    · have differs : name first ≠ name item := fun same =>
        distinct.1 (same ▸ List.mem_map_of_mem member)
      rw [List.find?_cons_of_neg (by simpa using differs)]
      exact ih distinct.2 member

theorem nodup_of_new {item : α} (distinct : (items.map name).Nodup)
    (new : ¬ items.any (name · == name item) = true) : ((items ++ [item]).map name).Nodup := by
  rw [List.map_append, List.map_singleton, List.nodup_append]
  refine ⟨distinct, by simp, ?_⟩
  rintro _ old other hother rfl
  obtain ⟨first, hfirst, same⟩ := List.mem_map.mp old
  refine new (List.any_eq_true.mpr ⟨first, hfirst, ?_⟩)
  rw [same, List.mem_singleton.mp hother]
  exact beq_self_eq_true _

end Names

section Forall₂

variable {α β γ : Type} {R : α → β → Prop} {S : α → γ → Prop} {as : List α} {bs : List β}
  {cs : List γ}

theorem exists_right_of_forall₂ (related : List.Forall₂ R as bs) {a : α} (member : a ∈ as) :
    ∃ b ∈ bs, R a b := by
  induction related with
  | nil => cases member
  | cons first _ ih =>
    rcases List.mem_cons.mp member with rfl | member
    · exact ⟨_, List.mem_cons_self, first⟩
    · obtain ⟨b, hb, both⟩ := ih member
      exact ⟨b, List.mem_cons_of_mem _ hb, both⟩

theorem exists_left_of_forall₂ (related : List.Forall₂ R as bs) {b : β} (member : b ∈ bs) :
    ∃ a ∈ as, R a b := exists_right_of_forall₂ related.flip member

theorem forall₂_zip_right (first : List.Forall₂ R as bs) (second : List.Forall₂ S as cs) :
    List.Forall₂ (fun a pair => R a pair.1 ∧ S a pair.2) as (bs.zip cs) := by
  induction first generalizing cs with
  | nil =>
    cases second
    exact .nil
  | cons one _ ih =>
    cases second with
    | cons other others => exact .cons ⟨one, other⟩ (ih others)

theorem forall₂_zipIdx (related : List.Forall₂ R as bs) (k : Nat) :
    List.Forall₂ (fun a b => R a.1 b.1 ∧ a.2 = b.2) (as.zipIdx k) (bs.zipIdx k) := by
  induction related generalizing k with
  | nil => exact .nil
  | cons first _ ih => exact .cons ⟨first, rfl⟩ (ih (k + 1))

end Forall₂

section Repetitions

variable {α : Type} [BEq α] [LawfulBEq α]

theorem eraseDups_concat (as : List α) (a : α) :
    (as ++ [a]).eraseDups = if a ∈ as then as.eraseDups else as.eraseDups ++ [a] := by
  rw [List.eraseDups_append]
  split
  · rename_i there
    have nothing : [a].removeAll as = [] := by simp [List.removeAll, there]
    rw [nothing]
    exact List.append_nil _
  · rename_i new
    have one : [a].removeAll as = [a] := by simp [List.removeAll, new]
    rw [one]
    rfl

theorem nodup_eraseDups (as : List α) : as.eraseDups.Nodup := by
  induction as using List.reverseRecOn with
  | nil => exact List.nodup_nil
  | append_singleton as a ih =>
    rw [eraseDups_concat]
    split
    · exact ih
    · rename_i new
      rw [← List.concat_eq_append]
      exact List.Nodup.concat (mt List.mem_eraseDups.mp new) ih

end Repetitions

theorem flatMap_filter_perm {A K : Type} [DecidableEq K] (key : A → K) {keys : List K}
    (distinct : keys.Nodup) {items : List A} (covered : ∀ a ∈ items, key a ∈ keys) :
    (keys.flatMap fun k => items.filter (key · = k)).Perm items := by
  induction keys generalizing items with
  | nil =>
    have none : items = [] := List.eq_nil_iff_forall_not_mem.mpr fun a member =>
      List.not_mem_nil (covered a member)
    rw [none]
    exact .refl _
  | cons k keys ih =>
    obtain ⟨new, distinct⟩ := List.nodup_cons.mp distinct
    -- no later key meets the items of `k`, so they may be taken out first
    have others : (keys.flatMap fun k' => items.filter (key · = k')) =
        keys.flatMap fun k' => (items.filter fun a => !decide (key a = k)).filter (key · = k') := by
      refine List.flatMap_congr fun k' member => ?_
      rw [List.filter_filter]
      refine List.filter_congr fun a _ => ?_
      by_cases same : key a = k'
      · subst same
        have apart : key a ≠ k := fun same => new (same ▸ member)
        simp [apart]
      · simp [same]
    rw [List.flatMap_cons, others]
    refine ((ih distinct fun a member => ?_).append_left _).trans (List.filter_append_perm _ items)
    obtain ⟨member, apart⟩ := List.mem_filter.mp member
    exact (List.mem_cons.mp (covered a member)).resolve_left (by simpa using apart)

section Positions

variable {α : Type}

theorem filterMap_range_getElem? (xs : List α) :
    (List.range xs.length).filterMap (xs[·]?) = xs := by
  induction xs using List.reverseRecOn with
  | nil => rfl
  | append_singleton xs x ih =>
    rw [List.length_append, List.length_singleton, List.range_succ, List.filterMap_append]
    have front : (List.range xs.length).filterMap ((xs ++ [x])[·]?) = xs := by
      refine (List.filterMap_congr fun p hp => ?_).trans ih
      exact List.getElem?_append_left (List.mem_range.mp hp)
    simp [front]

theorem sublist_range {n : Nat} {ps : List Nat} (increasing : ps.Pairwise (· < ·))
    (inside : ∀ p ∈ ps, p < n) : ps.Sublist (List.range n) := by
  have distinct : ps.Nodup := increasing.imp Nat.ne_of_lt
  exact List.sublist_of_subperm_of_pairwise
    (List.subperm_of_subset distinct fun p hp => List.mem_range.mpr (inside p hp))
    increasing List.pairwise_lt_range

theorem lt_of_pair_sublist {l : List α} (distinct : l.Nodup) {x y : α}
    (pair : [x, y].Sublist l) {i j : Nat} (hx : l[i]? = some x) (hy : l[j]? = some y) : i < j := by
  obtain ⟨place, same⟩ := List.sublist_iff_exists_orderEmbedding_getElem?_eq.mp pair
  have hi : i = place 0 :=
    (List.getElem?_inj (List.getElem?_eq_some_iff.mp hx).1 distinct).mp (hx.trans (same 0))
  have hj : j = place 1 :=
    (List.getElem?_inj (List.getElem?_eq_some_iff.mp hy).1 distinct).mp (hy.trans (same 1))
  rw [hi, hj]
  exact place.strictMono Nat.zero_lt_one

end Positions

section Earlier

variable {α : Type}

/-- Each item of a list, with the items in front of it behind those given. -/
def withEarlier : List α → List α → List (List α × α)
  | _, [] => []
  | earlier, item :: items => (earlier, item) :: withEarlier (earlier ++ [item]) items

theorem forall_snd_withEarlier_iff {Q : α → Prop} {earlier items : List α} :
    (∀ p ∈ withEarlier earlier items, Q p.2) ↔ ∀ item ∈ items, Q item := by
  induction items generalizing earlier with
  | nil => simp [withEarlier]
  | cons item items ih => simp only [withEarlier, List.forall_mem_cons, ih]

private theorem forall_fst_withEarlier_iff {R : α → α → Prop} {earlier items : List α} :
    (∀ p ∈ withEarlier earlier items, ∀ before ∈ p.1, R before p.2) ↔
      (∀ before ∈ earlier, ∀ item ∈ items, R before item) ∧ items.Pairwise R := by
  induction items generalizing earlier with
  | nil => simp [withEarlier]
  | cons item items ih =>
    simp only [withEarlier, List.forall_mem_cons, ih, List.forall_mem_append,
      List.not_mem_nil, false_implies, implies_true, and_true, List.pairwise_cons]
    constructor
    · rintro ⟨first, ⟨others, ahead⟩, pairwise⟩
      exact ⟨fun before member => ⟨first before member, others before member⟩, ahead, pairwise⟩
    · rintro ⟨each, ahead, pairwise⟩
      exact ⟨fun before member => (each before member).1,
        ⟨fun before member => (each before member).2, ahead⟩, pairwise⟩

theorem withEarlier_cons (first : α) (earlier items : List α) :
    withEarlier (first :: earlier) items =
      (withEarlier earlier items).map fun p => (first :: p.1, p.2) := by
  induction items generalizing earlier with
  | nil => rfl
  | cons item items ih => exact congrArg _ (ih (earlier ++ [item]))

theorem forall_withEarlier_nil_iff {R : α → α → Prop} {items : List α} :
    (∀ p ∈ withEarlier [] items, ∀ before ∈ p.1, R before p.2) ↔ items.Pairwise R :=
  forall_fst_withEarlier_iff.trans (and_iff_right nofun)

end Earlier

end ObjectRelational
