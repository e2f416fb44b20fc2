import ObjectRelational.Json.Token

set_option autoImplicit false
set_option relaxedAutoImplicit false

/-!
JSON values and how a document is read into one: a machine over its tokens that keeps the
containers it is in.
-/

namespace ObjectRelational.Json

/-- A value as it is written; texts keep their pieces, numbers their characters, and members their
order and repetitions. -/
inductive Value
  | null
  | bool (b : Bool)
  | number (chars : List Char)
  | text (pieces : List Piece)
  | array (items : List Value)
  | object (members : List (List Piece × Value))
  deriving Repr

/-- Digits behind an exponent mark and its sign, or nothing. -/
def isExponent : List Char → Bool
  | [] => true
  | mark :: rest =>
    let digits :=
      match rest with
      | '+' :: digits => digits
      | '-' :: digits => digits
      | digits => digits
    (mark == 'e' || mark == 'E') && !digits.isEmpty && digits.all Char.isDigit

/-- What may follow the integer part of a number. -/
def isFraction : List Char → Bool
  | '.' :: d :: rest => d.isDigit && isExponent (rest.dropWhile Char.isDigit)
  | rest => isExponent rest

/-- A number without its sign: no needless zero in front. -/
def isUnsigned : List Char → Bool
  | '0' :: rest => isFraction rest
  | d :: rest => d.isDigit && isFraction (rest.dropWhile Char.isDigit)
  | [] => false

def isNumber : List Char → Bool
  | '-' :: rest => isUnsigned rest
  | chars => isUnsigned chars

/-- The value that a word stands for. -/
def Value.ofWord? (chars : List Char) : Option Value :=
  if chars = ['n', 'u', 'l', 'l'] then some .null
  else if chars = ['t', 'r', 'u', 'e'] then some (.bool true)
  else if chars = ['f', 'a', 'l', 's', 'e'] then some (.bool false)
  else if isNumber chars then some (.number chars)
  else none

/-- A container that is not closed yet, with what it holds in reverse. -/
inductive Container
  | array (items : List Value)
  /-- The value to come belongs to the key. -/
  | object (members : List (List Piece × Value)) (key : List Piece)

/-- Where the reading of a document stands, inside the open containers. -/
inductive ReadState
  /-- A value has to follow, or in a new array its end. -/
  | value (within : List Container) (mayClose : Bool)
  /-- A key has to follow, or in a new object its end. -/
  | member (within : List Container) (members : List (List Piece × Value)) (mayClose : Bool)
  /-- A colon has to follow the key. -/
  | colon (within : List Container) (members : List (List Piece × Value)) (key : List Piece)
  /-- A value is complete. -/
  | after (within : List Container) (v : Value)

namespace ReadState

/-- Reads a token; `none` if it cannot stand there. -/
def feed : ReadState → Token → Option ReadState
  | .value within _, .word chars => (Value.ofWord? chars).map (.after within)
  | .value within _, .text pieces => some (.after within (.text pieces))
  | .value within _, .openArray => some (.value (.array [] :: within) true)
  | .value within _, .openObject => some (.member within [] true)
  | .value (.array items :: within) true, .closeArray =>
    some (.after within (.array items.reverse))
  | .member within members _, .text key => some (.colon within members key)
  | .member within members true, .closeObject => some (.after within (.object members.reverse))
  | .colon within members key, .colon => some (.value (.object members key :: within) false)
  | .after (.array items :: within) v, .comma =>
    some (.value (.array (v :: items) :: within) false)
  | .after (.array items :: within) v, .closeArray =>
    some (.after within (.array (v :: items).reverse))
  | .after (.object members key :: within) v, .comma =>
    some (.member within ((key, v) :: members) false)
  | .after (.object members key :: within) v, .closeObject =>
    some (.after within (.object ((key, v) :: members).reverse))
  | _, _ => none

/-- The value of a document that has ended. -/
def finish : ReadState → Option Value
  | .after [] v => some v
  | _ => none

end ReadState

/-- The value of a document. -/
def Value.parse? (document : String) : Option Value := do
  let tokens ← tokens? document.toList
  (← tokens.foldlM ReadState.feed (.value [] false)).finish

/-- The value of a text. -/
def Value.ofText (s : String) : Value := .text (writeText s)

end ObjectRelational.Json
