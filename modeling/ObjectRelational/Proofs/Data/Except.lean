import Mathlib.Data.List.Forall2

set_option autoImplicit false
set_option relaxedAutoImplicit false

/-!
Programs that may fail: what their parts have come to when the whole is done, and which part failed
when it is not.
-/

namespace ObjectRelational

variable {α β ε : Type}

theorem bind_eq_ok_iff {first : Except ε α} {next : α → Except ε β} {b : β} :
    first >>= next = .ok b ↔ ∃ a, first = .ok a ∧ next a = .ok b := by
  constructor
  · intro done
    cases first with
    | error e => cases done
    | ok a => exact ⟨a, rfl, done⟩
  · rintro ⟨a, rfl, rest⟩
    exact rest

theorem of_bind_eq_error {first : Except ε α} {next : α → Except ε β} {e : ε}
    (failed : first >>= next = .error e) :
    first = .error e ∨ ∃ a, first = .ok a ∧ next a = .error e := by
  cases first with
  | error e' =>
    cases failed
    exact .inl rfl
  | ok a => exact .inr ⟨a, rfl, failed⟩

theorem map_eq_ok_iff {x : Except ε α} {f : α → β} {b : β} :
    x.map f = .ok b ↔ ∃ a, x = .ok a ∧ f a = b := by
  cases x <;> simp [Except.map]

theorem map_eq_error_iff {x : Except ε α} {f : α → β} {e : ε} :
    x.map f = .error e ↔ x = .error e := by
  cases x <;> simp [Except.map]

theorem forM_ok_iff {check : α → Except ε Unit} {items : List α} :
    items.forM check = .ok () ↔ ∀ item ∈ items, check item = .ok () := by
  induction items with
  | nil => exact ⟨fun _ => nofun, fun _ => rfl⟩
  | cons item items ih =>
    change (check item >>= fun _ => items.forM check) = .ok () ↔ _
    rw [List.forall_mem_cons]
    constructor
    · intro passed
      obtain ⟨⟨⟩, first, others⟩ := bind_eq_ok_iff.mp passed
      exact ⟨first, ih.mp others⟩
    · rintro ⟨first, others⟩
      rw [first]
      exact ih.mpr others

/-- A list of steps succeeds when each of them does, with the list of their results. -/
theorem mapM_ok_iff_forall₂ {step : α → Except ε β} {items : List α} {results : List β} :
    items.mapM step = .ok results ↔
      List.Forall₂ (fun item result => step item = .ok result) items results := by
  induction items generalizing results with
  | nil =>
    cases results with
    | nil => exact ⟨fun _ => .nil, fun _ => rfl⟩
    | cons result results => exact ⟨nofun, nofun⟩
  | cons item items ih =>
    rw [List.mapM_cons]
    constructor
    · intro done
      obtain ⟨result, first, done⟩ := bind_eq_ok_iff.mp done
      obtain ⟨rest, others, done⟩ := bind_eq_ok_iff.mp done
      obtain rfl := Except.ok.inj done
      exact .cons first (ih.mp others)
    · rintro (_ | ⟨first, others⟩)
      rw [first, ih.mpr others]
      rfl

theorem exists_of_mapM_eq_error {step : α → Except ε β} {items : List α} {e : ε}
    (failed : items.mapM step = .error e) : ∃ item ∈ items, step item = .error e := by
  induction items with
  | nil => cases failed
  | cons item items ih =>
    rw [List.mapM_cons] at failed
    rcases of_bind_eq_error failed with first | ⟨result, -, failed⟩
    · exact ⟨item, List.mem_cons_self, first⟩
    · rcases of_bind_eq_error failed with others | ⟨results, -, impossible⟩
      · obtain ⟨later, member, same⟩ := ih others
        exact ⟨later, List.mem_cons_of_mem _ member, same⟩
      · cases impossible

/-- What every accepted item preserves, of the items so far and what came of them, holds after a
fold that fails on none. -/
theorem foldlM_ok_induction {step : β → α → Except ε β} {P : List α → β → Prop}
    (preserved : ∀ {done b a b'}, step b a = .ok b' → P done b → P (done ++ [a]) b')
    {items : List α} {start last : β} (ok : items.foldlM step start = .ok last)
    (first : P [] start) : P items last := by
  have onward : ∀ {items done : List α} {start : β}, items.foldlM step start = .ok last →
      P done start → P (done ++ items) last := by
    intro items
    induction items with
    | nil =>
      intro done start ok first
      obtain rfl := Except.ok.inj ok
      rwa [List.append_nil]
    | cons item items ih =>
      intro done start ok first
      rw [List.foldlM_cons] at ok
      obtain ⟨b, one, rest⟩ := bind_eq_ok_iff.mp ok
      have all := ih rest (preserved one first)
      rwa [List.append_assoc] at all
  exact onward ok first

theorem exists_of_foldlM_eq_error {step : β → α → Except ε β} {items : List α} {b : β} {e : ε}
    (failed : items.foldlM step b = .error e) :
    ∃ built, ∃ item ∈ items, step built item = .error e := by
  induction items generalizing b with
  | nil => cases failed
  | cons item items ih =>
    rw [List.foldlM_cons] at failed
    rcases of_bind_eq_error failed with first | ⟨more, -, others⟩
    · exact ⟨b, item, List.mem_cons_self, first⟩
    · obtain ⟨built, later, member, same⟩ := ih others
      exact ⟨built, later, List.mem_cons_of_mem _ member, same⟩

end ObjectRelational
