set_option autoImplicit false
set_option relaxedAutoImplicit false

/-!
The texts of a JSON document. Between the quotes stand characters and, written by number, 16-bit
units; two units may make up one character, and a unit that is half of such a pair and stands alone
stands for no character.
-/

namespace ObjectRelational.Json

/-- A piece of a written text. -/
inductive Piece
  /-- A character, as it stands or behind a backslash. -/
  | char (c : Char)
  /-- A unit given by its four hexadecimal digits. -/
  | unit (value : Nat)
  deriving Repr, DecidableEq

def isLeadingHalf (n : Nat) : Bool := 0xD800 ≤ n && n < 0xDC00

def isTrailingHalf (n : Nat) : Bool := 0xDC00 ≤ n && n < 0xE000

/-- The character whose code is split over two units. -/
def pairedChar (leading trailing : Nat) : Char :=
  Char.ofNat (0x10000 + (leading - 0xD800) * 0x400 + (trailing - 0xDC00))

/-- The characters of a written text; `none` if half a pair stands alone. -/
def readPieces : List Piece → Option (List Char)
  | [] => some []
  | .char c :: pieces => (readPieces pieces).map (c :: ·)
  | .unit n :: .unit m :: pieces =>
    if isLeadingHalf n then
      if isTrailingHalf m then (readPieces pieces).map (pairedChar n m :: ·) else none
    else if isTrailingHalf n then none
    else (readPieces (.unit m :: pieces)).map (Char.ofNat n :: ·)
  | .unit n :: pieces =>
    if isLeadingHalf n || isTrailingHalf n then none
    else (readPieces pieces).map (Char.ofNat n :: ·)

/-- The text that the pieces stand for. -/
def readText (pieces : List Piece) : Option String := (readPieces pieces).map String.ofList

/-- The character that a letter behind a backslash stands for. -/
def escaped? : Char → Option Char
  | '"' => some '"'
  | '\\' => some '\\'
  | '/' => some '/'
  | 'b' => some '\x08'
  | 'f' => some '\x0c'
  | 'n' => some '\n'
  | 'r' => some '\r'
  | 't' => some '\t'
  | _ => none

/-- The letter that stands for a character behind a backslash. -/
def escapeLetter? : Char → Option Char
  | '"' => some '"'
  | '\\' => some '\\'
  | '\x08' => some 'b'
  | '\x0c' => some 'f'
  | '\n' => some 'n'
  | '\r' => some 'r'
  | '\t' => some 't'
  | _ => none

/-- Characters below the blank do not stand in a text. -/
def isControl (c : Char) : Bool := c.toNat < 0x20

/-- The piece for a character: control characters without a letter are given by number. -/
def Piece.ofChar (c : Char) : Piece :=
  if isControl c && (escapeLetter? c).isNone then .unit c.toNat else .char c

/-- The pieces that stand for a text. -/
def writeText (s : String) : List Piece := s.toList.map Piece.ofChar

/-- The value of a hexadecimal digit. -/
def hexValue? (c : Char) : Option Nat :=
  if c.isDigit then some (c.toNat - '0'.toNat)
  else if 'a' ≤ c && c ≤ 'f' then some (c.toNat - 'a'.toNat + 10)
  else if 'A' ≤ c && c ≤ 'F' then some (c.toNat - 'A'.toNat + 10)
  else none

/-- The hexadecimal digit of a value below sixteen. -/
def hexDigit (n : Nat) : Char :=
  if n < 10 then Char.ofNat ('0'.toNat + n) else Char.ofNat ('a'.toNat + (n - 10))

/-- The characters of a piece between the quotes. -/
def Piece.written : Piece → List Char
  | .char c =>
    match escapeLetter? c with
    | some letter => ['\\', letter]
    | none => [c]
  | .unit n =>
    ['\\', 'u', hexDigit (n / 4096 % 16), hexDigit (n / 256 % 16), hexDigit (n / 16 % 16),
      hexDigit (n % 16)]

/-- A text between its quotes. -/
def quotedPieces (pieces : List Piece) : List Char :=
  '"' :: pieces.flatMap Piece.written ++ ['"']

end ObjectRelational.Json
