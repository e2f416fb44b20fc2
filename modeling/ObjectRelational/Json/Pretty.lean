import ObjectRelational.Json.Value

set_option autoImplicit false
set_option relaxedAutoImplicit false

/-!
The indented form of a document: every item and member on a line of its own, two blanks deeper
than the container, and nothing inside an empty one.
-/

namespace ObjectRelational.Json.Value

/-- A line break and the indentation behind it. -/
def lineBreak (depth : Nat) : List Char := '\n' :: List.replicate (2 * depth) ' '

mutual

/-- A value inside containers of a depth. -/
def prettyChars (depth : Nat) : Value → List Char
  | .null => ['n', 'u', 'l', 'l']
  | .bool true => ['t', 'r', 'u', 'e']
  | .bool false => ['f', 'a', 'l', 's', 'e']
  | .number chars => chars
  | .text pieces => quotedPieces pieces
  | .array [] => ['[', ']']
  | .array (v :: vs) =>
    '[' :: lineBreak (depth + 1) ++ prettyChars (depth + 1) v ++ prettyItems (depth + 1) vs ++
      lineBreak depth ++ [']']
  | .object [] => ['\x7b', '\x7d']
  | .object ((key, v) :: members) =>
    '\x7b' :: lineBreak (depth + 1) ++ quotedPieces key ++ [':', ' '] ++
      prettyChars (depth + 1) v ++ prettyMembers (depth + 1) members ++ lineBreak depth ++
      ['\x7d']

/-- The items of an array behind its first. -/
def prettyItems (depth : Nat) : List Value → List Char
  | [] => []
  | v :: vs => ',' :: lineBreak depth ++ prettyChars depth v ++ prettyItems depth vs

/-- The members of an object behind its first. -/
def prettyMembers (depth : Nat) : List (List Piece × Value) → List Char
  | [] => []
  | (key, v) :: members =>
    ',' :: lineBreak depth ++ quotedPieces key ++ [':', ' '] ++ prettyChars depth v ++
      prettyMembers depth members

end

/-- The indented document of a value. -/
def pretty (v : Value) : String := String.ofList (v.prettyChars 0)

end ObjectRelational.Json.Value
