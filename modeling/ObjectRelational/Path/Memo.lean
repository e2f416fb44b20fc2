import ObjectRelational.MappingError
import ObjectRelational.Path.Destination

set_option autoImplicit false
set_option relaxedAutoImplicit false

/-!
Memories of destinations. What was found first for a key is kept, a failure as well, and every
later look-up of the key is told so.
-/

namespace ObjectRelational

/-- How a memory was used. The counts have 64 bits. -/
structure MemoStats where
  /-- Look-ups that found their key. -/
  hits : UInt64 := 0
  /-- Look-ups that did not. -/
  misses : UInt64 := 0
  /-- The keys that are kept. -/
  size : Nat := 0
  deriving Repr, DecidableEq

/-- The share of look-ups that found their key; zero before the first. -/
def MemoStats.hitRatio (s : MemoStats) : Float :=
  let total := s.hits + s.misses
  if total = 0 then 0.0 else s.hits.toFloat / total.toFloat

/-- The destinations that are kept, each under its key. -/
structure Memo where
  entries : List (String × Except MappingError Destination) := []
  hits : UInt64 := 0
  misses : UInt64 := 0

namespace Memo

/-- What is kept under a key. -/
def lookup? (m : Memo) (key : String) : Option (Except MappingError Destination) :=
  (m.entries.find? (·.1 == key)).map (·.2)

/-- Counts a look-up that found its key. -/
def countHit (m : Memo) : Memo := { m with hits := m.hits + 1 }

/-- Keeps what was found for a key that was not there. -/
def remember (m : Memo) (key : String) (result : Except MappingError Destination) : Memo :=
  { m with entries := m.entries ++ [(key, result)], misses := m.misses + 1 }

/-- A key that was not there is found from then on. -/
theorem lookup?_remember_self (m : Memo) (key : String) (result : Except MappingError Destination)
    (absent : m.lookup? key = none) : (m.remember key result).lookup? key = some result := by
  have none_of_key : m.entries.find? (·.1 == key) = none := by simpa [lookup?] using absent
  simp only [lookup?, remember, List.find?_append, none_of_key]
  simp

theorem lookup?_remember_of_ne (m : Memo) {key other : String}
    (result : Except MappingError Destination) (different : key ≠ other) :
    (m.remember other result).lookup? key = m.lookup? key := by
  have behind : [(other, result)].find? (·.1 == key) = none := by simpa using Ne.symm different
  rw [lookup?, remember, List.find?_append, behind, Option.or_none]
  rfl

def stats (m : Memo) : MemoStats := ⟨m.hits, m.misses, m.entries.length⟩

end Memo

end ObjectRelational
