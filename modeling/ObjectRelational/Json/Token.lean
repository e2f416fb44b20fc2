import ObjectRelational.Json.Text

set_option autoImplicit false
set_option relaxedAutoImplicit false

/-!
The tokens of a JSON document, read character by character. A run of characters that belongs to
nothing else is a word, whatever it says.
-/

namespace ObjectRelational.Json

inductive Token
  | openObject
  | closeObject
  | openArray
  | closeArray
  | comma
  | colon
  | text (pieces : List Piece)
  | word (chars : List Char)
  deriving Repr, DecidableEq

/-- What the characters read so far have begun. -/
inductive LexMode
  | between
  | word (reversed : List Char)
  | text (reversed : List Piece)
  /-- Behind a backslash. -/
  | escape (reversed : List Piece)
  /-- Among the digits of a unit: how many are to come, and the value of those read. -/
  | unit (reversed : List Piece) (missing value : Nat)
  deriving Repr, DecidableEq

/-- A document half read: the tokens behind, the latest first, and the one begun. -/
structure Lexer where
  tokens : List Token := []
  mode : LexMode := .between
  deriving Repr, DecidableEq

def isBlank (c : Char) : Bool := c == ' ' || c == '\t' || c == '\n' || c == '\r'

def punctuation? : Char → Option Token
  | '\x7b' => some .openObject
  | '\x7d' => some .closeObject
  | '[' => some .openArray
  | ']' => some .closeArray
  | ',' => some .comma
  | ':' => some .colon
  | _ => none

/-- Whether a character may stand in a word. -/
def isWordChar (c : Char) : Bool := !isBlank c && (punctuation? c).isNone && c != '"'

namespace Lexer

/-- Reads a character between two tokens. -/
def feedBetween (tokens : List Token) (c : Char) : Lexer :=
  if isBlank c then { tokens }
  else if c = '"' then { tokens, mode := .text [] }
  else
    match punctuation? c with
    | some token => { tokens := token :: tokens }
    | none => { tokens, mode := .word [c] }

/-- Reads a character; `none` if it cannot stand there. -/
def feed (s : Lexer) (c : Char) : Option Lexer :=
  match s.mode with
  | .between => some (feedBetween s.tokens c)
  | .word chars =>
    if isWordChar c then some { s with mode := .word (c :: chars) }
    else some (feedBetween (.word chars.reverse :: s.tokens) c)
  | .text pieces =>
    if c = '"' then some { tokens := .text pieces.reverse :: s.tokens }
    else if c = '\\' then some { s with mode := .escape pieces }
    else if isControl c then none
    else some { s with mode := .text (.char c :: pieces) }
  | .escape pieces =>
    if c = 'u' then some { s with mode := .unit pieces 4 0 }
    else (escaped? c).map fun c => { s with mode := .text (.char c :: pieces) }
  | .unit pieces missing value =>
    (hexValue? c).map fun digit =>
      if missing ≤ 1 then { s with mode := .text (.unit (16 * value + digit) :: pieces) }
      else { s with mode := .unit pieces (missing - 1) (16 * value + digit) }

/-- The tokens at the end of the document, which ends no token but a word. -/
def finish (s : Lexer) : Option (List Token) :=
  match s.mode with
  | .between => some s.tokens.reverse
  | .word chars => some (.word chars.reverse :: s.tokens).reverse
  | _ => none

end Lexer

/-- The tokens of a document. -/
def tokens? (document : List Char) : Option (List Token) := do
  (← document.foldlM Lexer.feed {}).finish

end ObjectRelational.Json
