import Mathlib.Data.List.Basic
import ObjectRelational.Text.Dotted

set_option autoImplicit false
set_option relaxedAutoImplicit false

/-!
Taking texts apart at their dots and putting them together again. The parts of a text have no
dots, joining them gives the text back, and the parts of joined texts are those of each in turn.
-/

namespace ObjectRelational.Text

private theorem splitDots_eq_splitOn (cs : List Char) : splitDots cs = cs.splitOn '.' := by
  rw [List.splitOn_eq_splitOnP]
  induction cs with
  | nil => rfl
  | cons c cs ih =>
    rw [List.splitOnP_cons_eq_if_modifyHead, ← ih, splitDots]
    by_cases dot : c = '.'
    · simp [dot]
    · cases parts : splitDots cs with
      | nil => exact absurd parts (splitDots_ne_nil cs)
      | cons part parts => simp [dot]

private theorem joinDots_eq_intercalate (parts : List (List Char)) :
    joinDots parts = ['.'].intercalate parts := by
  induction parts with
  | nil => rfl
  | cons part parts ih =>
    cases parts with
    | nil => simp [joinDots]
    | cons next parts =>
      rw [joinDots, ih, List.intercalate_cons_cons, List.append_assoc, List.singleton_append]

private theorem splitDots_append_dot (cs ds : List Char) :
    splitDots (cs ++ '.' :: ds) = splitDots cs ++ splitDots ds := by
  simp only [splitDots_eq_splitOn, List.splitOn_eq_splitOnP]
  exact List.splitOnP_append_cons cs ds (by simp)

private theorem splitDots_of_not_mem {cs : List Char} (plain : '.' ∉ cs) : splitDots cs = [cs] := by
  have parts : (['.'].intercalate [cs]).splitOn '.' = [cs] :=
    List.splitOn_intercalate '.' (by simpa using plain) (by simp)
  rw [splitDots_eq_splitOn]
  simpa using parts

private theorem not_mem_of_mem_splitDots {cs part : List Char} (member : part ∈ splitDots cs) :
    '.' ∉ part := by
  induction cs generalizing part with
  | nil =>
    obtain rfl : part = [] := by simpa [splitDots] using member
    exact List.not_mem_nil
  | cons c cs ih =>
    unfold splitDots at member
    split at member
    · rcases List.mem_cons.mp member with rfl | member
      · exact List.not_mem_nil
      · exact ih member
    · rename_i notDot
      cases parts : splitDots cs with
      | nil => exact absurd parts (splitDots_ne_nil cs)
      | cons first rest =>
        rw [parts] at ih member
        rcases List.mem_cons.mp member with rfl | member
        · have tail : '.' ∉ first := ih List.mem_cons_self
          exact not_or.mpr ⟨Ne.symm notDot, tail⟩ ∘ List.mem_cons.mp
        · exact ih (List.mem_cons_of_mem _ member)

def undotted (parts : List String) : String := ".".intercalate parts

private theorem toList_undotted (parts : List String) :
    (undotted parts).toList = joinDots (parts.map String.toList) := by
  rw [undotted, String.toList_intercalate, joinDots_eq_intercalate]
  rfl

theorem hasDot_eq_false_iff (s : String) : hasDot s = false ↔ '.' ∉ s.toList := by
  simp [hasDot]

theorem dotted_ne_nil (s : String) : dotted s ≠ [] := by
  simpa [dotted] using splitDots_ne_nil s.toList

theorem hasDot_of_mem_dotted {s part : String} (member : part ∈ dotted s) :
    hasDot part = false := by
  obtain ⟨cs, hcs, rfl⟩ := List.mem_map.mp member
  rw [hasDot_eq_false_iff, String.toList_ofList]
  exact not_mem_of_mem_splitDots hcs

theorem dotted_of_hasDot_eq_false {s : String} (plain : hasDot s = false) : dotted s = [s] := by
  rw [hasDot_eq_false_iff] at plain
  simp [dotted, splitDots_of_not_mem plain]

private theorem map_toList_dotted (s : String) :
    (dotted s).map String.toList = splitDots s.toList := by
  simp [dotted, Function.comp_def]

theorem undotted_dotted (s : String) : undotted (dotted s) = s := by
  apply String.toList_injective
  rw [toList_undotted, map_toList_dotted, joinDots_splitDots]

@[simp] theorem undotted_singleton (s : String) : undotted [s] = s := by
  apply String.toList_injective
  rw [toList_undotted]
  rfl

theorem undotted_cons (part : String) {parts : List String} (more : parts ≠ []) :
    undotted (part :: parts) = part ++ "." ++ undotted parts := by
  obtain ⟨next, parts, rfl⟩ := List.exists_cons_of_ne_nil more
  apply String.toList_injective
  simp [toList_undotted, joinDots]

theorem dotted_append_dot (s t : String) : dotted (s ++ "." ++ t) = dotted s ++ dotted t := by
  have chars : (s ++ "." ++ t).toList = s.toList ++ '.' :: t.toList := by simp
  rw [dotted, chars, splitDots_append_dot, List.map_append]
  rfl

theorem dotted_undotted {parts : List String} (nonempty : parts ≠ []) :
    dotted (undotted parts) = parts.flatMap dotted := by
  induction parts with
  | nil => exact absurd rfl nonempty
  | cons part parts ih =>
    cases parts with
    | nil => simp
    | cons next parts =>
      have rest := ih (by simp)
      rw [List.flatMap_cons, ← rest]
      simp only [dotted, toList_undotted, List.map_cons, joinDots, splitDots_append_dot,
        List.map_append]

theorem dotted_undotted_of_plain {parts : List String} (nonempty : parts ≠ [])
    (plain : ∀ part ∈ parts, hasDot part = false) : dotted (undotted parts) = parts := by
  have each : parts.flatMap dotted = parts.flatMap fun part => [part] :=
    List.flatMap_congr fun part member => dotted_of_hasDot_eq_false (plain part member)
  rw [dotted_undotted nonempty, each, List.flatMap_singleton']

theorem cutLastDot_of_dotted {s last : String} {front : List String}
    (parts : dotted s = front ++ [last]) : cutLastDot s = (undotted front, last) := by
  have chars : splitDots s.toList = front.map String.toList ++ [last.toList] := by
    rw [← map_toList_dotted, parts, List.map_append, List.map_singleton]
  have joined : String.ofList (joinDots (front.map String.toList)) = undotted front := by
    rw [← toList_undotted, String.ofList_toList]
  simp [cutLastDot, chars, joined]

theorem exists_cutLastDot (s : String) :
    ∃ front last, dotted s = front ++ [last] ∧ cutLastDot s = (undotted front, last) := by
  have parts := List.dropLast_append_getLast (dotted_ne_nil s)
  exact ⟨_, _, parts.symm, cutLastDot_of_dotted parts.symm⟩

theorem hasDot_cutLastDot_snd (s : String) : hasDot (cutLastDot s).2 = false := by
  obtain ⟨front, last, parts, cut⟩ := exists_cutLastDot s
  rw [cut]
  apply hasDot_of_mem_dotted (s := s)
  rw [parts]
  exact List.mem_append_right front List.mem_cons_self

/-- In front of the last part stands nothing, an empty part alone, or a text made of the others. -/
theorem front_cases {s last : String} {front : List String} (parts : dotted s = front ++ [last]) :
    front = [] ∨ front = [""] ∨ undotted front ≠ "" ∧ dotted (undotted front) = front := by
  have plain : ∀ part ∈ front, hasDot part = false := by
    intro part member
    apply hasDot_of_mem_dotted (s := s)
    rw [parts]
    exact List.mem_append_left _ member
  by_cases alone : front = []
  · exact .inl alone
  right
  have rejoined := dotted_undotted_of_plain alone plain
  by_cases empty : undotted front = ""
  · left
    rw [← rejoined, empty]
    rfl
  · exact .inr ⟨empty, rejoined⟩

theorem eq_append_of_dotted {s last : String} {front : List String}
    (parts : dotted s = front ++ [last]) (more : front ≠ []) :
    s = undotted front ++ "." ++ last := by
  have last_plain : hasDot last = false := by
    apply hasDot_of_mem_dotted (s := s)
    rw [parts]
    exact List.mem_append_right _ List.mem_cons_self
  have front_parts : dotted (undotted front) = front := by
    rcases front_cases parts with none | rfl | ⟨-, rejoined⟩
    · exact absurd none more
    · rfl
    · exact rejoined
  have rejoined : dotted (undotted front ++ "." ++ last) = dotted s := by
    rw [dotted_append_dot, front_parts, dotted_of_hasDot_eq_false last_plain, parts]
  rw [← undotted_dotted (undotted front ++ "." ++ last), rejoined, undotted_dotted]

theorem exists_append_of_dotted {s last : String} {front : List String}
    (parts : dotted s = front ++ [last]) : ∃ before, s = before ++ last := by
  by_cases alone : front = []
  · have whole := undotted_dotted s
    rw [parts, alone, List.nil_append, undotted_singleton] at whole
    exact ⟨"", by rw [String.empty_append, whole]⟩
  · exact ⟨undotted front ++ ".", eq_append_of_dotted parts alone⟩

end ObjectRelational.Text
