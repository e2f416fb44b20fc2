set_option autoImplicit false
set_option relaxedAutoImplicit false

/-!
Texts made of parts with dots between them. Every text is one: a text without a dot has one part,
and parts may be empty.
-/

namespace ObjectRelational.Text

/-- The parts of a list of characters between its dots. -/
def splitDots : List Char → List (List Char)
  | [] => [[]]
  | c :: cs =>
    if c = '.' then [] :: splitDots cs
    else
      match splitDots cs with
      | [] => [[c]]
      | part :: parts => (c :: part) :: parts

/-- The parts with a dot between each two. -/
def joinDots : List (List Char) → List Char
  | [] => []
  | [part] => part
  | part :: next :: parts => part ++ '.' :: joinDots (next :: parts)

/-- The parts of a text between its dots. -/
def dotted (s : String) : List String := (splitDots s.toList).map String.ofList

def hasDot (s : String) : Bool := s.toList.contains '.'

/-- What stands in front of the last dot, empty without a dot, and what stands behind it. -/
def cutLastDot (s : String) : String × String :=
  let parts := splitDots s.toList
  (String.ofList (joinDots parts.dropLast), String.ofList (parts.getLastD []))

theorem splitDots_ne_nil (cs : List Char) : splitDots cs ≠ [] := by
  cases cs with
  | nil => simp [splitDots]
  | cons c cs =>
    unfold splitDots
    split
    · simp
    · split <;> simp

/-- Putting the dots back gives the text. -/
theorem joinDots_splitDots (cs : List Char) : joinDots (splitDots cs) = cs := by
  induction cs with
  | nil => rfl
  | cons c cs ih =>
    unfold splitDots
    split
    · rename_i dot
      cases h : splitDots cs with
      | nil => exact absurd h (splitDots_ne_nil cs)
      | cons part parts => simp [joinDots, ← h, ih, dot]
    · cases h : splitDots cs with
      | nil => exact absurd h (splitDots_ne_nil cs)
      | cons part parts =>
        rw [h] at ih
        cases parts with
        | nil => simpa [joinDots] using ih
        | cons next parts => simpa [joinDots] using ih

end ObjectRelational.Text
