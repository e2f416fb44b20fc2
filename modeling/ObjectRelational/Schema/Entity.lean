import ObjectRelational.Text.Dotted

set_option autoImplicit false
set_option relaxedAutoImplicit false

/-!
The entities of a schema: tables with their columns, and object entities, whose attributes and
relationships name paths through the tables.
-/

namespace ObjectRelational

/-- A column of a table. -/
structure Column where
  name : String
  /-- Part of the primary key. -/
  primaryKey : Bool := false
  /-- Not null. -/
  mandatory : Bool := false
  deriving Repr, DecidableEq

/-- A mandatory column of the primary key. -/
def Column.key (name : String) : Column := ⟨name, true, true⟩

/-- A table of the database, with its columns in order of declaration. -/
structure Table where
  name : String
  columns : List Column := []
  deriving Repr, DecidableEq

namespace Table

def addColumn (t : Table) (column : Column) : Table :=
  { t with columns := t.columns ++ [column] }

/-- Adds columns that are neither keys nor mandatory. -/
def addColumns (t : Table) (names : List String) : Table :=
  { t with columns := t.columns ++ names.map fun name => { name } }

/-- Makes the first of the columns with a name a key. -/
def markKey (name : String) : List Column → List Column
  | [] => []
  | c :: cs =>
    if c.name = name then { c with primaryKey := true, mandatory := true } :: cs
    else c :: markKey name cs

/-- Makes a column part of the primary key, adding it if there is none of that name. -/
def addKey (t : Table) (name : String) : Table :=
  if t.columns.any (·.name == name) then { t with columns := markKey name t.columns }
  else t.addColumn (.key name)

def addKeys (t : Table) (names : List String) : Table := names.foldl addKey t

/-- The first column of a name. -/
def column? (t : Table) (name : String) : Option Column := t.columns.find? (·.name == name)

def hasColumn (t : Table) (name : String) : Bool := (t.column? name).isSome

/-- The columns of the primary key. -/
def keyColumns (t : Table) : List Column := t.columns.filter (·.primaryKey)

end Table

/-- A property of an object, mapped to a path that ends on a column. -/
structure ObjectAttribute where
  name : String
  path : String
  deriving Repr, DecidableEq

/-- Whether the column belongs to another table than the object. -/
def ObjectAttribute.isFlattened (a : ObjectAttribute) : Bool := Text.hasDot a.path

/-- A relationship between objects, mapped to a path of relationships between tables. -/
structure ObjectRelationship where
  name : String
  target : String
  path : String
  deriving Repr, DecidableEq

/-- Whether the path crosses more than one relationship. -/
def ObjectRelationship.isFlattened (r : ObjectRelationship) : Bool := Text.hasDot r.path

def ObjectRelationship.components (r : ObjectRelationship) : List String := Text.dotted r.path

/-- The view of a table as an object. -/
structure ObjectEntity where
  name : String
  /-- Name of the backing table. -/
  table : String
  attributes : List ObjectAttribute := []
  relationships : List ObjectRelationship := []
  deriving Repr, DecidableEq

namespace ObjectEntity

def addAttribute (e : ObjectEntity) (name path : String) : ObjectEntity :=
  { e with attributes := e.attributes ++ [⟨name, path⟩] }

def addRelationship (e : ObjectEntity) (name target path : String) : ObjectEntity :=
  { e with relationships := e.relationships ++ [⟨name, target, path⟩] }

/-- The first attribute of a name. -/
def attribute? (e : ObjectEntity) (name : String) : Option ObjectAttribute :=
  e.attributes.find? (·.name == name)

/-- The first relationship of a name. -/
def relationship? (e : ObjectEntity) (name : String) : Option ObjectRelationship :=
  e.relationships.find? (·.name == name)

end ObjectEntity

end ObjectRelational
