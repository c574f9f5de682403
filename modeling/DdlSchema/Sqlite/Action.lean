import DdlSchema.Parser.Basic

/-! What the nodes of the SQLite grammar do to a draft. -/
namespace DdlSchema

namespace Sqlite

/-- One action for each node that has one. -/
inductive Action where
  | doCreateTable
  | tableName
  | columnName
  | typeName
  | typeSize
  | typeScale
  | null
  | notNull
  | inlinePrimaryKey
  | autoincrement
  | defaultNull
  | defaultInteger
  | defaultString
  | defaultKeyword
  | constraintName
  | doPrimaryKey
  | pkColumnName
  | doForeignKey
  | fkColumnName
  | fkReferencedTableName
  | fkReferencedColumnName
  | tableEnd
  | doCreateUniqueIndex
  | doCreateIndex
  | indexName
  | indexTableName
  | indexColumnName
  | indexColumnAscOrDesc
deriving DecidableEq, Repr

namespace Action

def all : List Action :=
  [doCreateTable, tableName, columnName, typeName, typeSize, typeScale, null, notNull,
    inlinePrimaryKey, autoincrement, defaultNull, defaultInteger, defaultString, defaultKeyword,
    constraintName, doPrimaryKey, pkColumnName, doForeignKey, fkColumnName, fkReferencedTableName,
    fkReferencedColumnName, tableEnd, doCreateUniqueIndex, doCreateIndex, indexName,
    indexTableName, indexColumnName, indexColumnAscOrDesc]

/-- The name of the node that an action belongs to. -/
def nodeName : Action → String
  | doCreateTable => "do-create-table"
  | tableName => "table-name"
  | columnName => "column-name"
  | typeName => "type-name"
  | typeSize => "type-size"
  | typeScale => "type-scale"
  | null => "null"
  | notNull => "not-null"
  | inlinePrimaryKey => "inline-primary-key"
  | autoincrement => "autoincrement"
  | defaultNull => "default-null"
  | defaultInteger => "default-integer"
  | defaultString => "default-string"
  | defaultKeyword => "default-keyword"
  | constraintName => "constraint-name"
  | doPrimaryKey => "do-primary-key"
  | pkColumnName => "pk-column-name"
  | doForeignKey => "do-foreign-key"
  | fkColumnName => "fk-column-name"
  | fkReferencedTableName => "fk-referenced-table-name"
  | fkReferencedColumnName => "fk-referenced-column-name"
  | tableEnd => "table-end"
  | doCreateUniqueIndex => "do-create-unique-index"
  | doCreateIndex => "do-create-index"
  | indexName => "index-name"
  | indexTableName => "index-table-name"
  | indexColumnName => "index-column-name"
  | indexColumnAscOrDesc => "index-column-asc-or-desc"

theorem mem_all (a : Action) : a ∈ all := by cases a <;> decide

/-- Joins words at hyphens, each with a capital. -/
def joinWords (capital : Bool) : List Char → List Char
  | [] => []
  | c :: cs =>
    if c = '-' then joinWords true cs
    else (if capital then c.toUpper else c) :: joinWords false cs

/-- The action as dumps show it. -/
def title (a : Action) : String := .ofList (joinWords true a.nodeName.toList)

end Action

/-- Marks a column with an inline `PRIMARY KEY` until its table ends. -/
def inlineKeyMark : String := "#inline-primary-key"

/-- Keeps the name of a constraint until the constraint begins. -/
def constraintMark : String := "#last-constraint-name"

/-- A string as it is written: between single quotes, with quotes inside written twice. -/
def quoteString (s : String) : String :=
  "'" ++ String.ofList (s.toList.flatMap fun c => if c = '\'' then ['\'', '\''] else [c]) ++ "'"

/-- The number of a type argument, which has 32 bits and no sign. -/
def typeArgument (token : Token) : Except HookError UInt32 :=
  match token.kind with
  | .integer (.ofNat n) => if n < UInt32.size then .ok (.ofNat n) else refused
  | _ => refused
where
  refused : Except HookError UInt32 := .error (.rejected (.invalidValue token.describe token.span
    "type arguments must be non-negative integers"))

/-- The token that an action needs. -/
def need (token : Option Token) : Except HookError Token :=
  (Draft.require .missingToken token).mapError .draft

/-- A change to the draft as an action: all or nothing. -/
def change (d : Draft) (result : Except HookError Draft) : Outcome HookError :=
  match result with
  | .ok d => ⟨d, .ok ()⟩
  | .error e => ⟨d, .error e⟩

/-- Changes the draft by a text that the token stands for. -/
def withText (token : Option Token) (d : Draft) (f : String → Draft → Except DraftError Draft) :
    Outcome HookError :=
  change d do (f (← need token).text d).mapError .draft

/-- Changes the draft without a look at the token. -/
def plainly (d : Draft) (result : Except DraftError Draft) : Outcome HookError :=
  change d (result.mapError .draft)

/-- Sets the primary key of the current table, under the name that waits for it. -/
def startPrimaryKey (token : Option Token) (d : Draft) : Except HookError Draft := do
  let t ← d.currentTable.mapError .draft
  if t.primaryKey.isSome then
    throw (.rejected (.conflictingPrimaryKey t.name (token.map Token.span)))
  (d.onTable fun t => { t with
      primaryKey := some ⟨t.properties.get? constraintMark, []⟩
      properties := t.properties.erase constraintMark }).mapError .draft

def startForeignKey (t : Table) : Table := { t with
  foreignKeys := t.foreignKeys ++ [{ name := t.properties.get? constraintMark }]
  properties := t.properties.erase constraintMark }

/-- The names of the columns that are marked as the key. -/
def markedColumns (t : Table) : List String :=
  (t.columns.filter fun c => (c.properties.get? inlineKeyMark).isSome).map (·.name)

def eraseMarks (t : Table) : Table := { t with
  columns := t.columns.map fun c => { c with properties := c.properties.erase inlineKeyMark } }

/-- Turns the mark of a column into the key of the table. The marks go in any case. -/
def resolveKey (d : Draft) : Outcome HookError :=
  match d.currentTable with
  | .error e => ⟨d, .error (.draft e)⟩
  | .ok t =>
    let bare := eraseMarks t
    match markedColumns t, t.primaryKey with
    | [], _ => ⟨d.replaceLast (.table bare), .ok ()⟩
    | [name], none =>
      ⟨d.replaceLast (.table { bare with primaryKey := some ⟨none, [name]⟩ }), .ok ()⟩
    | _, _ =>
      ⟨d.replaceLast (.table bare), .error (.rejected (.conflictingPrimaryKey t.name none))⟩

def setDirection (text : String) (d : Draft) : Except DraftError Draft :=
  match Direction.ofKeyword? text with
  | some direction => d.onIndexColumn fun c => { c with direction }
  | none => .error (.unknownDirection text)

/-- What an action does, given the token of its node. -/
def Action.perform (action : Action) (token : Option Token) (d : Draft) : Outcome HookError :=
  match action with
  | .doCreateTable => ⟨d.add (.table {}), .ok ()⟩
  | .tableName => withText token d fun name => Draft.onTable fun t => { t with name }
  | .columnName => withText token d fun name =>
    Draft.onTable fun t => { t with columns := t.columns ++ [{ name }] }
  | .typeName => withText token d fun name => Draft.onColumn fun c => { c with type := { name } }
  | .typeSize => change d do
    let size ← typeArgument (← need token)
    (d.onColumn fun c => { c with type := { c.type with size := some size } }).mapError .draft
  | .typeScale => change d do
    let scale ← typeArgument (← need token)
    (d.onColumn fun c => { c with type := { c.type with
      size := none, precision := c.type.size, scale := some scale } }).mapError .draft
  | .null => plainly d (d.onColumn fun c => { c with isNullable := true })
  | .notNull => plainly d (d.onColumn fun c => { c with isNullable := false })
  | .inlinePrimaryKey => plainly d (d.onColumn fun c =>
    { c with properties := c.properties.insert inlineKeyMark "" })
  | .autoincrement => plainly d (d.onColumn fun c => { c with identity := some ⟨"1", "1"⟩ })
  | .defaultNull => plainly d (d.onColumn fun c => { c with defaultText := some "NULL" })
  | .defaultInteger => withText token d fun text =>
    Draft.onColumn fun c => { c with defaultText := some text }
  | .defaultString => withText token d fun text =>
    Draft.onColumn fun c => { c with defaultText := some (quoteString text) }
  | .defaultKeyword => withText token d fun text =>
    Draft.onColumn fun c => { c with defaultText := some (Text.upper text) }
  | .constraintName => withText token d fun name =>
    Draft.onTable fun t => { t with properties := t.properties.insert constraintMark name }
  | .doPrimaryKey => change d (startPrimaryKey token d)
  | .pkColumnName => withText token d fun name =>
    Draft.onPrimaryKey fun k => { k with columns := k.columns ++ [name] }
  | .doForeignKey => plainly d (d.onTable startForeignKey)
  | .fkColumnName => withText token d fun name =>
    Draft.onForeignKey fun k => { k with columns := k.columns ++ [name] }
  | .fkReferencedTableName => withText token d fun table =>
    Draft.onForeignKey fun k => { k with table }
  | .fkReferencedColumnName => withText token d fun name =>
    Draft.onForeignKey fun k => { k with referenced := k.referenced ++ [name] }
  | .tableEnd => resolveKey d
  | .doCreateUniqueIndex => ⟨d.add (.index { isUnique := true }), .ok ()⟩
  | .doCreateIndex => ⟨d.add (.index { isUnique := false }), .ok ()⟩
  | .indexName => withText token d fun name => Draft.onIndex fun i => { i with name }
  | .indexTableName => withText token d fun table => Draft.onIndex fun i => { i with table }
  | .indexColumnName => withText token d fun name =>
    Draft.onIndex fun i => { i with columns := i.columns ++ [{ name }] }
  | .indexColumnAscOrDesc => withText token d setDirection

/-- The hooks of the dialect. None of them looks beyond the token of its node. -/
def act : Semantics Action := fun action context => action.perform context.token

end Sqlite
end DdlSchema
