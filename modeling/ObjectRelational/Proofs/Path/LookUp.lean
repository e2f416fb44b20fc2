import ObjectRelational.Proofs.Path.Recall

set_option autoImplicit false
set_option relaxedAutoImplicit false

/-!
The look-ups that requests make in the two memories of a navigator. A look-up is a hit or a miss,
and a request is at most one look-up, behind which an id path may add a last join.
-/

namespace ObjectRelational

structure TableLookup where
  table : Table
  path : String
  parent : Option String
  forced : Bool
  deriving Repr, DecidableEq

inductive Lookup
  | object (l : ObjectLookup)
  | table (l : TableLookup)
  deriving Repr, DecidableEq

inductive Memory
  | objectPaths
  | tablePaths
  deriving Repr, DecidableEq

namespace Lookup

def memory : Lookup → Memory
  | object _ => .objectPaths
  | table _ => .tablePaths

def key : Lookup → String
  | object l => l.key
  | table l => Navigator.memoKey l.parent l.table.name l.path

/-- Where the answer is kept. -/
def slot (l : Lookup) : Memory × String := (l.memory, l.key)

def within (asked : List Lookup) (m : Memory) : List Lookup := asked.filter (·.memory == m)

theorem within_append_self (asked : List Lookup) (l : Lookup) :
    within (asked ++ [l]) l.memory = within asked l.memory ++ [l] := by
  simp [within]

theorem within_append_of_ne (asked : List Lookup) {l : Lookup} {m : Memory}
    (differs : m ≠ l.memory) : within (asked ++ [l]) m = within asked m := by
  simp [within, Ne.symm differs]

def first? (asked : List Lookup) (l : Lookup) : Option Lookup :=
  asked.find? (slot · == l.slot)

theorem find?_within (asked : List Lookup) (l : Lookup) :
    (within asked l.memory).find? (key · == l.key) = first? asked l := by
  rw [within, List.find?_filter]
  congr 1
  funext first
  rw [Bool.eq_iff_iff]
  simp [slot]

theorem slot_of_first? {asked : List Lookup} {l first : Lookup}
    (found : first? asked l = some first) : first.slot = l.slot := by
  simpa using List.find?_some found

theorem first?_append_self (asked : List Lookup) (l : Lookup) :
    first? (asked ++ [l]) l = some ((first? asked l).getD l) := by
  rw [first?, List.find?_append, List.find?_cons_of_pos (by simp), Option.or_some]
  rfl

private theorem slot_getD_first? (asked : List Lookup) (l : Lookup) :
    ((first? asked l).getD l).slot = l.slot := by
  cases found : first? asked l with
  | none => rfl
  | some first => exact slot_of_first? found

theorem exists_getD_first? (asked : List Lookup) (l : TableLookup) :
    ∃ first : TableLookup, (first? asked (.table l)).getD (.table l) = .table first := by
  have same := slot_getD_first? asked (.table l)
  cases first : (first? asked (.table l)).getD (.table l) with
  | object o =>
    rw [first] at same
    cases congrArg Prod.fst same
  | table t => exact ⟨t, rfl⟩

theorem exists_getD_first?_object (asked : List Lookup) (l : ObjectLookup) :
    ∃ first : ObjectLookup, (first? asked (.object l)).getD (.object l) = .object first := by
  have same := slot_getD_first? asked (.object l)
  cases first : (first? asked (.object l)).getD (.object l) with
  | object o => exact ⟨o, rfl⟩
  | table t =>
    rw [first] at same
    cases congrArg Prod.fst same

end Lookup

namespace Catalog

def follow (c : Catalog) : Lookup → Except MappingError Resolution
  | .object l => c.resolve l
  | .table l => c.resolveTablePath l.table l.path (l.parent.getD "") l.forced

def found (c : Catalog) (l : Lookup) : Except MappingError Destination :=
  (c.follow l).map (·.destination)

end Catalog

def Request.look? : Request → Option Lookup
  | .object o path parent => some (.object ⟨o, path, parent⟩)
  | .table t path parent forced => some (.table ⟨t, path, parent, forced⟩)
  | .id o path =>
    let front := (Text.cutLastDot path).1
    if front.isEmpty then none else some (.object ⟨o, front, none⟩)

/-- The last join of an id path, if what stands in front of the name ends on a relationship. -/
def Request.lastJoins : Request → Except MappingError Destination → List TableJoin
  | .id _ path, .ok reached =>
    (reached.relationship?.map fun r =>
      Navigator.lastJoin reached r (Text.cutLastDot path).1).toList
  | _, _ => []

def joinsOf : Except MappingError Resolution → List TableJoin
  | .ok resolution => resolution.joins
  | .error _ => []

namespace Navigator

variable (n : Navigator)

def memo : Memory → Memo
  | .objectPaths => n.objectPaths
  | .tablePaths => n.tablePaths

def withMemo (memo : Memo) : Memory → Navigator
  | .objectPaths => { n with objectPaths := memo }
  | .tablePaths => { n with tablePaths := memo }

@[simp] theorem catalog_withMemo (memo : Memo) (m : Memory) :
    (n.withMemo memo m).catalog = n.catalog := by
  cases m <;> rfl

@[simp] theorem tree_withMemo (memo : Memo) (m : Memory) :
    (n.withMemo memo m).tree = n.tree := by
  cases m <;> rfl

@[simp] theorem memo_withMemo_self (memo : Memo) (m : Memory) :
    (n.withMemo memo m).memo m = memo := by
  cases m <;> rfl

theorem memo_withMemo_of_ne (memo : Memo) {m other : Memory} (differs : other ≠ m) :
    (n.withMemo memo m).memo other = n.memo other := by
  cases m <;> cases other <;> first | rfl | exact absurd rfl differs

theorem memo_register (resolved : Except MappingError Resolution) (m : Memory) :
    (n.register resolved).memo m = n.memo m := by
  cases resolved <;> cases m <;> rfl

theorem tree_register (resolved : Except MappingError Resolution) :
    (n.register resolved).tree = n.tree.addJoins (joinsOf resolved) := by
  cases resolved <;> rfl

def look : Lookup → Except MappingError Destination × Navigator
  | .object l => n.objectPath l.object l.path l.parent
  | .table l => n.tablePath l.table l.path l.parent l.forced

/-- A hit is counted, and a miss is resolved, registered and remembered. -/
theorem look_cases (l : Lookup) :
    (∃ kept, (n.memo l.memory).lookup? l.key = some kept ∧
      n.look l = (kept, n.withMemo (n.memo l.memory).countHit l.memory)) ∨
    ((n.memo l.memory).lookup? l.key = none ∧
      n.look l = (n.catalog.found l, (n.register (n.catalog.follow l)).withMemo
        ((n.memo l.memory).remember l.key (n.catalog.found l)) l.memory)) := by
  cases l with
  | object l => exact n.objectPath_cases l.object l.path l.parent
  | table l => exact n.tablePath_cases l.table l.path l.parent l.forced

theorem ask_of_look?_eq_none {q : Request} (unlooked : q.look? = none) : (n.ask q).2 = n := by
  cases q with
  | object object path parent => cases unlooked
  | table table path parent forced => cases unlooked
  | id object path =>
    rw [ask_id]
    rcases n.idPath_cases object path with ⟨-, answer⟩ | ⟨through, -⟩
    · rw [answer]
    · rw [Request.look?, if_neg (mt String.isEmpty_iff.mp through)] at unlooked
      cases unlooked

theorem ask_of_look? {q : Request} {l : Lookup} (looked : q.look? = some l) :
    (n.ask q).2 = { (n.look l).2 with
      tree := (n.look l).2.tree.addJoins (q.lastJoins (n.look l).1) } := by
  cases q with
  | object object path parent =>
    obtain rfl := Option.some.inj looked
    rfl
  | table table path parent forced =>
    obtain rfl := Option.some.inj looked
    rfl
  | id object path =>
    rw [ask_id]
    rcases n.idPath_cases object path with ⟨own, -⟩ | ⟨through, rest⟩
    · rw [Request.look?, if_pos (String.isEmpty_iff.mpr own)] at looked
      cases looked
    · rw [Request.look?, if_neg (mt String.isEmpty_iff.mp through)] at looked
      obtain rfl := Option.some.inj looked
      rcases rest with ⟨e, led, answer⟩ | ⟨reached, led, last, answer⟩ |
        ⟨reached, r, led, last, answer⟩
      · rw [answer, look, led]
        rfl
      · rw [answer, look, led, Request.lastJoins, last]
        rfl
      · rw [answer, look, led, Request.lastJoins, last]
        rfl

end Navigator

end ObjectRelational
