import ObjectRelational.MappingError
import ObjectRelational.Text.Dotted

set_option autoImplicit false
set_option relaxedAutoImplicit false

/-!
The segments of a path: a name, an alias that keeps two joins of one name apart, and a mark for a
join that keeps rows without a partner. A segment is written `name`, `name#alias`, `name+` or
`name#alias+`, and a path is its segments with dots between them.
-/

namespace ObjectRelational

structure Segment where
  name : String
  aliasName : Option String := none
  /-- The join keeps rows without a partner. -/
  outer : Bool := false
  deriving Repr, DecidableEq

namespace Segment

/-- Behind a segment: the join keeps rows without a partner. -/
def outerMark : Char := '+'

/-- Between a name and its alias. -/
def aliasMark : Char := '#'

/-- A text without a final mark, and whether there was one. -/
def cutOuter (chars : List Char) : List Char × Bool :=
  if chars.getLast? = some outerMark then (chars.dropLast, true) else (chars, false)

/-- What stands in front of the first mark, and what stands behind it. -/
def cutAlias : List Char → List Char × Option (List Char)
  | [] => ([], none)
  | c :: cs =>
    if c = aliasMark then ([], some cs)
    else
      let (name, aliasName) := cutAlias cs
      (c :: name, aliasName)

/-- Whether a mark is left where none may stand. -/
def hasMark (chars : List Char) : Bool := chars.contains outerMark || chars.contains aliasMark

/-- Reads a segment. -/
def parse (raw : String) : Except MappingError Segment :=
  let (rest, outer) := cutOuter raw.toList
  let (name, aliasName) := cutAlias rest
  if name.isEmpty then .error (.emptySegment raw)
  else if aliasName = some [] then .error (.emptyAlias raw)
  else if hasMark name || aliasName.any hasMark then .error (.malformedSegment raw)
  else .ok { name := String.ofList name, aliasName := aliasName.map String.ofList, outer }

/-- Whether the segment says more than a name, which makes sense for relationships only. -/
def hasMarkers (s : Segment) : Bool := s.outer || s.aliasName.isSome

/-- The alias and the mark of a segment with another name. -/
def rename (s : Segment) (name : String) : Segment := { s with name }

/-- The segment as it is written. -/
def text (s : Segment) : String :=
  s.name ++
    (match s.aliasName with
      | none => ""
      | some aliasName => String.singleton aliasMark ++ aliasName) ++
    (if s.outer then String.singleton outerMark else "")

end Segment

namespace Path

/-- The segments of a path. -/
def segments (path : String) : Except MappingError (List Segment) :=
  if path.isEmpty then .error .emptyPath else (Text.dotted path).mapM Segment.parse

/-- A path with one component more; at the root the component alone. -/
def append (base component : String) : String :=
  if base.isEmpty then component else base ++ "." ++ component

end Path

end ObjectRelational
