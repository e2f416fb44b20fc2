import ObjectRelational.Digraph.TopologicalOrder

set_option autoImplicit false
set_option relaxedAutoImplicit false

/-!
What can go wrong while a schema is described, resolved, sorted or searched, as causes. The kind
of a cause and its wording are functions of it.
-/

namespace ObjectRelational

/-- The kinds of failure that a caller tells apart. -/
inductive ErrorKind
  /-- Malformed declarations. -/
  | configuration
  /-- A name that the schema does not hold. -/
  | schemaResolution
  /-- A path that breaks the syntax of paths. -/
  | invalidPath
  /-- A well-formed path that leads nowhere in the schema. -/
  | pathResolution
  /-- An operation before what it needs was set up. -/
  | precondition
  /-- Rows that depend on each other in a cycle. -/
  | rowCycle
  /-- A descriptor that cannot be read. -/
  | serialization
  deriving Repr, DecidableEq

namespace ErrorKind

/-- What a message of each kind begins with. -/
def heading : ErrorKind → String
  | configuration => "Configuration error: "
  | schemaResolution => "Schema resolution error: "
  | invalidPath => "Invalid path: "
  | pathResolution => "Path resolution error: "
  | precondition => "Precondition failed: "
  | rowCycle => "Row cycle: "
  | serialization => "Serialization error: "

def describe (kind : ErrorKind) (detail : String) : String := kind.heading ++ detail

end ErrorKind

/-- The causes of failure. -/
inductive MappingError
  | bothSidesDependent
  | missingJoinParts (parts : List String)
  | joinEntityCount (count : Nat)
  | joinNameCount (count : Nat)
  | joinWithoutPairs (left right : String)
  | duplicateTable (table map : String)
  | duplicateObject (object map : String)
  | duplicateRelationship (relationship table : String)
  | unknownBackingTable (object table : String)
  | unknownTargetObject (object relationship target : String)
  | unknownJoinTable (left right table : String)
  | unknownColumn (column table : String)
  | unknownTable (table : String)
  | unknownObject (object : String)
  | unindexedTable (table : String)
  | emptyPath
  | emptySegment (segment : String)
  | emptyAlias (segment : String)
  | malformedSegment (segment : String)
  | markersOnAttribute (name path : String)
  | emptyIdPath
  | unresolvedComponent (component path entity : String)
  | attributeNotLast (name path : String)
  | idPathWithoutRelationship (path front : String)
  | noSuchKey (path : String)
  | noCatalog
  | repeatedRowKey (table : String) (first second : Nat)
  | rowsInCycle (table : String) (positions : List Nat)
  | unorderedRows (table : String) (cause : CycleError)
  | malformedDescriptor
  deriving Repr, DecidableEq

namespace MappingError

def quoted (s : String) : String := "'" ++ s ++ "'"

def commaList (parts : List String) : String := String.intercalate ", " parts

def kind : MappingError → ErrorKind
  | bothSidesDependent | missingJoinParts _ | joinEntityCount _ | joinNameCount _
  | joinWithoutPairs .. | duplicateTable .. | duplicateObject .. | duplicateRelationship .. =>
    .configuration
  | unknownBackingTable .. | unknownTargetObject .. | unknownJoinTable .. | unknownColumn ..
  | unknownTable _ | unknownObject _ | unindexedTable _ => .schemaResolution
  | emptyPath | emptySegment _ | emptyAlias _ | malformedSegment _ | markersOnAttribute ..
  | emptyIdPath => .invalidPath
  | unresolvedComponent .. | attributeNotLast .. | idPathWithoutRelationship .. | noSuchKey _ =>
    .pathResolution
  | noCatalog | repeatedRowKey .. => .precondition
  | rowsInCycle .. | unorderedRows .. => .rowCycle
  | malformedDescriptor => .serialization

/-- The wording of a cause, without the heading of its kind. -/
def detail : MappingError → String
  | bothSidesDependent => "both sides of a join cannot be to-dependent-pk"
  | missingJoinParts parts => "missing parameters to create join: " ++ commaList parts
  | joinEntityCount count =>
    "wrong parameter count: a join needs 2 entities, got " ++ toString count
  | joinNameCount count => "wrong parameter count: a join needs 2 names, got " ++ toString count
  | joinWithoutPairs left right => "join " ++ left ++ " -> " ++ right ++ " has no column pairs"
  | duplicateTable table map =>
    "duplicate db entity " ++ quoted table ++ " in data map " ++ quoted map
  | duplicateObject object map =>
    "duplicate obj entity " ++ quoted object ++ " in data map " ++ quoted map
  | duplicateRelationship relationship table =>
    "duplicate relationship " ++ quoted relationship ++ " on db entity " ++ quoted table
  | unknownBackingTable object table =>
    "obj entity " ++ quoted object ++ " maps to unknown db entity " ++ quoted table
  | unknownTargetObject object relationship target =>
    "obj relationship " ++ quoted (object ++ "." ++ relationship) ++
      " targets unknown obj entity " ++ quoted target
  | unknownJoinTable left right table =>
    "join " ++ left ++ " -> " ++ right ++ ": no db entity named " ++ quoted table
  | unknownColumn column table => "no column " ++ quoted column ++ " in db entity " ++ quoted table
  | unknownTable table => "no db entity named " ++ quoted table
  | unknownObject object => "no obj entity named " ++ quoted object
  | unindexedTable table => "entity " ++ quoted table ++ " is not part of the sorter index"
  | emptyPath => "empty path"
  | emptySegment segment => "empty segment in " ++ quoted segment
  | emptyAlias segment => "empty alias in segment " ++ quoted segment
  | malformedSegment segment => "malformed segment " ++ quoted segment
  | markersOnAttribute name path =>
    "attribute " ++ quoted name ++ " in " ++ quoted path ++ " can't carry join markers"
  | emptyIdPath => "can't translate empty dbid path"
  | unresolvedComponent component path entity =>
    "can't resolve path component " ++ quoted component ++ " of " ++ quoted path ++
      " in entity " ++ quoted entity
  | attributeNotLast name path =>
    "attribute " ++ quoted name ++ " must be the last component of " ++ quoted path
  | idPathWithoutRelationship path front =>
    "can't translate dbid path " ++ quoted path ++ ": can't resolve relationship " ++ quoted front
  | noSuchKey path => "can't translate dbid path " ++ quoted path ++ ": no such pk"
  | noCatalog => "entity sorter has no catalog; reindex before sorting"
  | repeatedRowKey table first second =>
    "rows of " ++ quoted table ++ " at batch positions " ++ toString first ++ " and " ++
      toString second ++ " share a row key"
  | rowsInCycle table positions =>
    toString positions.length ++ " rows of " ++ quoted table ++
      " reference each other in a cycle (batch positions [" ++
      commaList (positions.map toString) ++ "])"
  | unorderedRows table cause => "rows of " ++ quoted table ++ ": " ++ cause.message
  | malformedDescriptor => "malformed descriptor"

/-- The wording of a cause behind the heading of its kind. -/
def message (e : MappingError) : String := e.kind.describe e.detail

end MappingError

end ObjectRelational
