import DdlSchema.Json.Basic
import DdlSchema.Schema

/-! The JSON form of schema objects. Absent options and empty lists are left out, except the lists
that every object of a kind has. -/
namespace DdlSchema
open Json

def Properties.toJson (p : Properties) : Json := obj (p.entries.map fun (k, v) => (k, str v))

def Properties.field (p : Properties) : List (String × Json) :=
  if p.entries.isEmpty then [] else [("properties", p.toJson)]

def Json.word (n : UInt32) : Json := nat n.toNat

def TypeDef.toJson (t : TypeDef) : Json := obj <|
  ("name", str t.name) :: field? "size" word t.size ++ field? "precision" word t.precision ++
    field? "scale" word t.scale

def Identity.toJson (i : Identity) : Json :=
  obj [("seed", str i.seed), ("increment", str i.increment)]

def Column.toJson (c : Column) : Json := obj <|
  [("name", str c.name), ("type", c.type.toJson), ("is_nullable", bool c.isNullable)] ++
    field? "identity" Identity.toJson c.identity ++ field? "default" str c.defaultText ++
    c.properties.field

def PrimaryKey.toJson (k : PrimaryKey) : Json := obj <|
  field? "name" str k.name ++ [("columns", strs k.columns)]

def ForeignKey.toJson (k : ForeignKey) : Json := obj <|
  field? "name" str k.name ++ [("column_names", strs k.columns),
    ("referenced_table_name", str k.table), ("referenced_column_names", strs k.referenced)]

def IndexColumn.toJson (c : IndexColumn) : Json :=
  obj [("name", str c.name), ("direction", str c.direction.name)]

def Index.fields (i : Index) : List (String × Json) :=
  [("name", str i.name), ("table_name", str i.table), ("is_unique", bool i.isUnique),
    ("columns", arr (i.columns.map IndexColumn.toJson))]

def Index.toJson (i : Index) : Json := obj i.fields

def Table.fields (t : Table) : List (String × Json) :=
  [("name", str t.name), ("columns", arr (t.columns.map Column.toJson))] ++
    field? "primary_key" PrimaryKey.toJson t.primaryKey ++
    fields? "foreign_keys" ForeignKey.toJson t.foreignKeys ++
    fields? "indexes" Index.toJson t.indexes ++ t.properties.field

def Table.toJson (t : Table) : Json := obj t.fields

/-- The kind of a clause is its first field. -/
def Clause.toJson (c : Clause) : Json :=
  obj (("clause", str c.kindName) :: match c with
    | .table t => t.fields
    | .index i => i.fields)

/-- Reads an optional field. A missing field and null are none. -/
def Json.optional? {α : Type} (j : Json) (name : String) (read : Json → Option α) :
    Option (Option α) :=
  match j.find? name with
  | none => some none
  | some v => (read v).map some

/-- Reads a list field that may be missing. -/
def Json.list? {α : Type} (j : Json) (name : String) (read : Json → Option α) :
    Option (List α) :=
  match j.find? name with
  | none => some []
  | some v => v.arr? >>= List.mapM read

/-- Reads a list field that has to be there. -/
def Json.items? {α : Type} (j : Json) (name : String) (read : Json → Option α) :
    Option (List α) := do (← (← j.get? name).arr?).mapM read

def Json.text? (j : Json) (name : String) : Option String := j.get? name >>= str?

/-- Reads a number of 32 bits. -/
def Json.word? (j : Json) : Option UInt32 := do
  let n ← j.nat?
  if n < UInt32.size then some (.ofNat n) else none

/-- The last value counts for a name that comes twice. -/
def Properties.ofJson? (j : Json) : Option Properties := do
  (← j.obj?).foldlM (fun p (k, v) => do some (p.insert k (← v.str?))) .empty

def Properties.ofField? (j : Json) : Option Properties :=
  match j.find? "properties" with
  | none => some .empty
  | some v => Properties.ofJson? v

def TypeDef.ofJson? (j : Json) : Option TypeDef := do
  some ⟨← j.text? "name", ← j.optional? "size" word?, ← j.optional? "precision" word?,
    ← j.optional? "scale" word?⟩

def Identity.ofJson? (j : Json) : Option Identity := do
  some ⟨← j.text? "seed", ← j.text? "increment"⟩

def Column.ofJson? (j : Json) : Option Column := do
  some ⟨← j.text? "name", ← j.get? "type" >>= TypeDef.ofJson?, ← j.get? "is_nullable" >>= bool?,
    ← j.optional? "identity" Identity.ofJson?, ← j.optional? "default" str?,
    ← Properties.ofField? j⟩

def PrimaryKey.ofJson? (j : Json) : Option PrimaryKey := do
  some ⟨← j.optional? "name" str?, ← j.items? "columns" str?⟩

def ForeignKey.ofJson? (j : Json) : Option ForeignKey := do
  some ⟨← j.optional? "name" str?, ← j.items? "column_names" str?,
    ← j.text? "referenced_table_name", ← j.items? "referenced_column_names" str?⟩

def Direction.ofName? : String → Option Direction
  | "Ascending" => some .ascending
  | "Descending" => some .descending
  | _ => none

def IndexColumn.ofJson? (j : Json) : Option IndexColumn := do
  some ⟨← j.text? "name", ← j.text? "direction" >>= Direction.ofName?⟩

def Index.ofJson? (j : Json) : Option Index := do
  some ⟨← j.text? "name", ← j.text? "table_name", ← j.get? "is_unique" >>= bool?,
    ← j.items? "columns" IndexColumn.ofJson?⟩

def Table.ofJson? (j : Json) : Option Table := do
  some ⟨← j.text? "name", ← j.items? "columns" Column.ofJson?,
    ← j.optional? "primary_key" PrimaryKey.ofJson?, ← j.list? "foreign_keys" ForeignKey.ofJson?,
    ← j.list? "indexes" Index.ofJson?, ← Properties.ofField? j⟩

def Clause.ofJson? (j : Json) : Option Clause := do
  match ← j.text? "clause" with
  | "table" => (Table.ofJson? j).map .table
  | "index" => (Index.ofJson? j).map .index
  | _ => none

end DdlSchema
