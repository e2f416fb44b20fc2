import ObjectRelational.Json.Value

set_option autoImplicit false
set_option relaxedAutoImplicit false

/-!
Records written as JSON: as an object of named members, among which unknown ones are passed over
and known ones stand at most once, or as the array of the fields in their order, whose tail may be
left out.
-/

namespace ObjectRelational.Json.Value

/-- The only value of a key; `none` if the key is repeated. -/
def lookupOnce (members : List (String × Value)) (key : String) : Option (Option Value) :=
  match members.filter (·.1 == key) with
  | [] => some none
  | [(_, v)] => some (some v)
  | _ => none

/-- The values given for the fields of a record, in the order of `names`. -/
def fields? (names : List String) : Value → Option (List (Option Value))
  | .object members => do
    let members ← members.mapM fun (key, v) => (readText key).map (·, v)
    names.mapM (lookupOnce members)
  | .array items =>
    if items.length ≤ names.length then
      some (items.map some ++ List.replicate (names.length - items.length) none)
    else none
  | _ => none

/-- A text without half pairs. -/
def text? : Value → Option String
  | .text pieces => readText pieces
  | _ => none

def bool? : Value → Option Bool
  | .bool b => some b
  | _ => none

/-- A text, or nothing where `null` stands. -/
def nullableText? : Value → Option (Option String)
  | .null => some none
  | v => v.text?.map some

/-- An array of values that are all readable. -/
def list? {α : Type} (read : Value → Option α) : Value → Option (List α)
  | .array items => items.mapM read
  | _ => none

/-- Exactly two values, read alike. -/
def two? {α : Type} (read : Value → Option α) (v : Value) : Option (α × α) :=
  match v.list? read with
  | some [a, b] => some (a, b)
  | _ => none

/-- The single member of an object. -/
def onlyMember? : Value → Option (String × Value)
  | .object [(key, v)] => (readText key).map (·, v)
  | _ => none

/-- The name of a case: a text, or the key of an object with nothing but that key and `null`. -/
def caseName? (v : Value) : Option String :=
  match v.onlyMember? with
  | some (name, .null) => some name
  | some _ => none
  | none => v.text?

/-- A field that has to be given. -/
def required {α : Type} (read : Value → Option α) (field : Option Value) : Option α :=
  field.bind read

/-- A field with a value for its absence. -/
def optional {α : Type} (absent : α) (read : Value → Option α) : Option Value → Option α
  | none => some absent
  | some v => read v

/-- An object whose keys are written as they are. -/
def record (members : List (String × Value)) : Value :=
  .object (members.map fun (key, v) => (writeText key, v))

end ObjectRelational.Json.Value
