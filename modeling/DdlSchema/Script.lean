import DdlSchema.Sqlite.Parser

/-! Schema objects as statements, with one column or constraint a line. -/
namespace DdlSchema
namespace Script

/-- The name between a delimiter, whose closing character is doubled where the delimiter allows. -/
def delimited (d : Delimiter) (name : List Char) : List Char :=
  let body :=
    if d.doubles then name.flatMap fun c => if c = d.closing then [c, c] else [c] else name
  d.opening :: body ++ [d.closing]

/-- Brackets cannot hold their closing character; such names take double quotes. -/
def delimiterFor (d : Delimiter) (name : String) : Delimiter :=
  if d.doubles || !name.toList.contains d.closing then d else .doubleQuotes

def quote (d : Delimiter) (name : String) : String :=
  .ofList (delimited (delimiterFor d name) name.toList)

/-- Whether a name is a word that is not reserved. -/
def isPlain (name : String) : Bool :=
  (match name.toList with
    | [] => false
    | c :: cs => Lexer.startsWord c && cs.all Lexer.continuesWord) &&
  !Sqlite.parser.reserved.contains name

/-- Type names are quoted only where they have to be. -/
def typeName (d : Delimiter) (name : String) : String := if isPlain name then name else quote d name

def nameList (d : Delimiter) (names : List String) : String :=
  ", ".intercalate (names.map (quote d))

/-- The column with an identity, which has to be the only column of the primary key. -/
def identityColumn (t : Table) : Except ScriptError (Option String) :=
  match t.columns.find? (·.identity.isSome) with
  | none => .ok none
  | some c =>
    if t.primaryKey.map (·.columns) = some [c.name] then .ok (some c.name)
    else .error (.identityWithoutPrimaryKey t.name c.name)

/-- The line of a column. -/
def column (d : Delimiter) (t : Table) (isKey : Bool) (c : Column) : Except ScriptError String :=
  if c.type.name.isEmpty then .error (.missingTypeName t.name c.name)
  else
    let type := { c.type with name := typeName d c.type.name }
    let null := if c.isNullable then " NULL" else " NOT NULL"
    let key := if isKey then " PRIMARY KEY AUTOINCREMENT" else ""
    let default := c.defaultText.elim "" (" DEFAULT " ++ ·)
    .ok (quote d c.name ++ " " ++ type.text ++ null ++ key ++ default)

def constraintName (d : Delimiter) (name : Option String) : String :=
  name.elim "" fun name => "CONSTRAINT " ++ quote d name ++ " "

def primaryKey (d : Delimiter) (t : Table) (k : PrimaryKey) : Except ScriptError String :=
  if k.columns.isEmpty then .error (.emptyColumnList t.name "primary key")
  else .ok (constraintName d k.name ++ "PRIMARY KEY(" ++ nameList d k.columns ++ ")")

def foreignKey (d : Delimiter) (t : Table) (k : ForeignKey) : Except ScriptError String :=
  if k.columns.isEmpty then .error (.emptyColumnList t.name "foreign key")
  else if k.columns.length ≠ k.referenced.length then
    .error (.foreignKeyColumnMismatch t.name k.name k.columns.length k.referenced.length)
  else
    .ok (constraintName d k.name ++ "FOREIGN KEY(" ++ nameList d k.columns ++ ") REFERENCES " ++
      quote d k.table ++ "(" ++ nameList d k.referenced ++ ")")

/-- The lines of the constraints. A key that stands with its column has none. -/
def constraints (d : Delimiter) (t : Table) (identity : Option String) :
    Except ScriptError (List String) := do
  let keys ← match t.primaryKey, identity with
    | some k, none => (primaryKey d t k).map ([·])
    | _, _ => .ok []
  .ok (keys ++ (← t.foreignKeys.mapM (foreignKey d t)))

/-- The statement that creates a table. -/
def createTable (d : Delimiter) (withConstraints : Bool) (t : Table) :
    Except ScriptError String := do
  if t.columns.isEmpty then throw (.emptyColumnList t.name "table")
  let identity ← identityColumn t
  let columns ← t.columns.mapM fun c => column d t (identity == some c.name) c
  let constraints ← if withConstraints then constraints d t identity else .ok []
  let body := ",\n".intercalate ((columns ++ constraints).map ("    " ++ ·))
  .ok ("CREATE TABLE " ++ quote d t.name ++ "(\n" ++ body ++ ")")

/-- The statement that creates an index. -/
def createIndex (d : Delimiter) (i : Index) : Except ScriptError String :=
  if i.columns.isEmpty then .error (.emptyColumnList i.name "index")
  else
    let columns := i.columns.map fun c => quote d c.name ++ " " ++ c.direction.keyword
    let unique := if i.isUnique then "UNIQUE " else ""
    .ok ("CREATE " ++ unique ++ "INDEX " ++ quote d i.name ++ " ON " ++ quote d i.table ++ "(" ++
      ", ".intercalate columns ++ ")")

/-- The statements that create a table and its indexes. -/
def createWithIndexes (d : Delimiter) (t : Table) : Except ScriptError (List String) := do
  let table ← createTable d true t
  .ok (table :: (← t.indexes.mapM (createIndex d)))

/-- The statement that creates what a clause holds. -/
def create (d : Delimiter) (withConstraints : Bool) : Clause → Except ScriptError String
  | .table t => createTable d withConstraints t
  | .index i => createIndex d i

/-- The script that creates some clauses, with a blank line between statements. -/
def render (d : Delimiter) (withConstraints : Bool) (clauses : List Clause) :
    Except ScriptError String := do
  let statements ← clauses.mapM (create d withConstraints)
  .ok ("\n\n".intercalate (statements.map (· ++ ";")))

end Script
end DdlSchema
