import ObjectRelational.Catalog.Relationship
import ObjectRelational.Text.CharacterClass

set_option autoImplicit false
set_option relaxedAutoImplicit false

/-!
The long listing of a relationship: its name, its ends and its flags as one record on a line. Its
texts stand in double quotes, and in them a backslash marks every character that could be misread:
one that would end the text, one that shows nothing, and one that would merge with what is in front
of it.
-/

namespace ObjectRelational

namespace Text

/-- The code point of a character in lower-case hexadecimal digits, in braces. -/
def codePoint (c : Char) : List Char :=
  ['\\', 'u', '\x7b'] ++ Nat.toDigits 16 c.toNat ++ ['\x7d']

/-- A character as it stands between quotes. -/
def escaped (c : Char) : List Char :=
  if c = '"' || c = '\\' then ['\\', c]
  else if c = '\t' then ['\\', 't']
  else if c = '\n' then ['\\', 'n']
  else if c = '\r' then ['\\', 'r']
  else if c = '\x00' then ['\\', '0']
  else if isUnprintable c || isExtending c then codePoint c
  else [c]

/-- A text between quotes. -/
def quoted (s : String) : String :=
  String.ofList (['"'] ++ s.toList.flatMap escaped ++ ['"'])

end Text

namespace Relationship

/-- A name and a value of the record. -/
def entry (name value : String) : String := name ++ ": " ++ value

/-- The relationship with all that tells it apart in a log. -/
def listing (r : Relationship) : String :=
  "DbRelationship \x7b " ++
    String.intercalate ", "
      [entry "name" (Text.quoted r.name), entry "source" (Text.quoted r.source.name),
        entry "target" (Text.quoted r.target.name), entry "to_many" (toString r.isToMany),
        entry "to_dependent_pk" (toString r.isToDependent),
        entry "runtime" (toString r.isRuntime)] ++
    " \x7d"

end Relationship

end ObjectRelational
