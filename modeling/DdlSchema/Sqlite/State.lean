import DdlSchema.Sqlite.Action

/-! The nodes of the SQLite grammar as a type, and the graph that they make. -/
namespace DdlSchema
namespace Sqlite

/-- The words that the grammar keeps for itself. -/
inductive Keyword where
  | asc
  | autoincrement
  | constraint
  | create
  | currentDate
  | currentTime
  | currentTimestamp
  | default
  | desc
  | existsWord
  | foreign
  | ifWord
  | index
  | key
  | not
  | null
  | onWord
  | primary
  | references
  | table
  | unique
deriving DecidableEq, Repr

namespace Keyword

def all : List Keyword :=
  [asc, autoincrement, constraint, create, currentDate, currentTime, currentTimestamp, default,
    desc, existsWord, foreign, ifWord, index, key, not, null, onWord, primary, references, table,
    unique]

def text : Keyword → String
  | asc => "ASC"
  | autoincrement => "AUTOINCREMENT"
  | constraint => "CONSTRAINT"
  | create => "CREATE"
  | currentDate => "CURRENT_DATE"
  | currentTime => "CURRENT_TIME"
  | currentTimestamp => "CURRENT_TIMESTAMP"
  | default => "DEFAULT"
  | desc => "DESC"
  | existsWord => "EXISTS"
  | foreign => "FOREIGN"
  | ifWord => "IF"
  | index => "INDEX"
  | key => "KEY"
  | not => "NOT"
  | null => "NULL"
  | onWord => "ON"
  | primary => "PRIMARY"
  | references => "REFERENCES"
  | table => "TABLE"
  | unique => "UNIQUE"

theorem mem_all (k : Keyword) : k ∈ all := by cases k <;> decide

end Keyword

/-- What a node waits for. -/
inductive Matcher where
  /-- Nothing of its own. -/
  | idle
  /-- The end of the statement. -/
  | finish
  | keyword (k : Keyword)
  | oneOf (ks : List Keyword)
  | opening
  | closing
  | comma
  | name
  | integer
  | string
deriving DecidableEq, Repr

def Matcher.kind : Matcher → NodeKind
  | idle => .idle
  | finish => .finish
  | keyword k => .exactWord k.text
  | oneOf ks => .multiWord (ks.map Keyword.text)
  | opening => .exactPunctuation '('
  | closing => .exactPunctuation ')'
  | comma => .exactPunctuation ','
  | name => .identifier
  | integer => .integer
  | string => .string

/-- The nodes in the order of their numbers. -/
inductive State where
  | root
  | create
  | doCreateTable
  | tableIf
  | tableIfNot
  | tableIfExists
  | tableName
  | tableOpen
  | columnName
  | typeName
  | typeOpen
  | typeSize
  | typeClose
  | columnAttributes
  | typeComma
  | typeScale
  | null
  | not
  | notNull
  | inlinePrimary
  | inlinePrimaryKey
  | autoincrement
  | default
  | defaultNull
  | defaultInteger
  | defaultString
  | defaultKeyword
  | columnComma
  | constraint
  | constraintName
  | doPrimaryKey
  | doForeignKey
  | pkKey
  | pkOpen
  | pkColumnName
  | pkAscOrDesc
  | pkColumnEnd
  | pkComma
  | pkClose
  | constraintEnd
  | constraintComma
  | tableClose
  | fkKey
  | fkOpen
  | fkColumnName
  | fkComma
  | fkClose
  | fkReferences
  | fkReferencedTableName
  | fkReferencedOpen
  | fkReferencedColumnName
  | fkReferencedComma
  | fkReferencedClose
  | tableEnd
  | finish
  | doCreateUniqueIndex
  | uniqueIndex
  | indexStart
  | doCreateIndex
  | indexIf
  | indexIfNot
  | indexIfExists
  | indexName
  | indexOn
  | indexTableName
  | indexOpen
  | indexColumnName
  | indexColumnAscOrDesc
  | indexColumnEnd
  | indexComma
  | indexClose
deriving DecidableEq, Repr

/-- What the grammar says of a node. -/
structure Row where
  name : String
  matcher : Matcher
  action : Option Action := none
  next : List State := []

namespace State

def row : State → Row
  | root => ⟨"root", .idle, none, [create]⟩
  | create => ⟨"create", .keyword .create, none, [doCreateTable, doCreateUniqueIndex, doCreateIndex]⟩
  | doCreateTable =>
    ⟨"do-create-table", .keyword .table, some .doCreateTable, [tableIf, tableName]⟩
  | tableIf => ⟨"table-if", .keyword .ifWord, none, [tableIfNot]⟩
  | tableIfNot => ⟨"table-if-not", .keyword .not, none, [tableIfExists]⟩
  | tableIfExists => ⟨"table-if-exists", .keyword .existsWord, none, [tableName]⟩
  | tableName => ⟨"table-name", .name, some .tableName, [tableOpen]⟩
  | tableOpen => ⟨"table-open", .opening, none, [columnName]⟩
  | columnName => ⟨"column-name", .name, some .columnName, [typeName]⟩
  | typeName => ⟨"type-name", .name, some .typeName, [typeOpen, columnAttributes]⟩
  | typeOpen => ⟨"type-open", .opening, none, [typeSize]⟩
  | typeSize => ⟨"type-size", .integer, some .typeSize, [typeClose, typeComma]⟩
  | typeClose => ⟨"type-close", .closing, none, [columnAttributes]⟩
  | columnAttributes =>
    ⟨"column-attributes", .idle, none, [null, not, inlinePrimary, default, columnComma, tableClose]⟩
  | typeComma => ⟨"type-comma", .comma, none, [typeScale]⟩
  | typeScale => ⟨"type-scale", .integer, some .typeScale, [typeClose]⟩
  | null => ⟨"null", .keyword .null, some .null, [columnAttributes]⟩
  | not => ⟨"not", .keyword .not, none, [notNull]⟩
  | notNull => ⟨"not-null", .keyword .null, some .notNull, [columnAttributes]⟩
  | inlinePrimary => ⟨"inline-primary", .keyword .primary, none, [inlinePrimaryKey]⟩
  | inlinePrimaryKey =>
    ⟨"inline-primary-key", .keyword .key, some .inlinePrimaryKey, [autoincrement, columnAttributes]⟩
  | autoincrement =>
    ⟨"autoincrement", .keyword .autoincrement, some .autoincrement, [columnAttributes]⟩
  | default =>
    ⟨"default", .keyword .default, none,
      [defaultNull, defaultInteger, defaultString, defaultKeyword]⟩
  | defaultNull => ⟨"default-null", .keyword .null, some .defaultNull, [columnAttributes]⟩
  | defaultInteger => ⟨"default-integer", .integer, some .defaultInteger, [columnAttributes]⟩
  | defaultString => ⟨"default-string", .string, some .defaultString, [columnAttributes]⟩
  | defaultKeyword =>
    ⟨"default-keyword", .oneOf [.currentTimestamp, .currentDate, .currentTime],
      some .defaultKeyword, [columnAttributes]⟩
  | columnComma =>
    ⟨"column-comma", .comma, none, [columnName, constraint, doPrimaryKey, doForeignKey]⟩
  | constraint => ⟨"constraint", .keyword .constraint, none, [constraintName]⟩
  | constraintName =>
    ⟨"constraint-name", .name, some .constraintName, [doPrimaryKey, doForeignKey]⟩
  | doPrimaryKey => ⟨"do-primary-key", .keyword .primary, some .doPrimaryKey, [pkKey]⟩
  | doForeignKey => ⟨"do-foreign-key", .keyword .foreign, some .doForeignKey, [fkKey]⟩
  | pkKey => ⟨"pk-key", .keyword .key, none, [pkOpen]⟩
  | pkOpen => ⟨"pk-open", .opening, none, [pkColumnName]⟩
  | pkColumnName => ⟨"pk-column-name", .name, some .pkColumnName, [pkAscOrDesc, pkColumnEnd]⟩
  | pkAscOrDesc => ⟨"pk-asc-or-desc", .oneOf [.asc, .desc], none, [pkColumnEnd]⟩
  | pkColumnEnd => ⟨"pk-column-end", .idle, none, [pkComma, pkClose]⟩
  | pkComma => ⟨"pk-comma", .comma, none, [pkColumnName]⟩
  | pkClose => ⟨"pk-close", .closing, none, [constraintEnd]⟩
  | constraintEnd => ⟨"constraint-end", .idle, none, [constraintComma, tableClose]⟩
  | constraintComma =>
    ⟨"constraint-comma", .comma, none, [constraint, doPrimaryKey, doForeignKey]⟩
  | tableClose => ⟨"table-close", .closing, none, [tableEnd]⟩
  | fkKey => ⟨"fk-key", .keyword .key, none, [fkOpen]⟩
  | fkOpen => ⟨"fk-open", .opening, none, [fkColumnName]⟩
  | fkColumnName => ⟨"fk-column-name", .name, some .fkColumnName, [fkComma, fkClose]⟩
  | fkComma => ⟨"fk-comma", .comma, none, [fkColumnName]⟩
  | fkClose => ⟨"fk-close", .closing, none, [fkReferences]⟩
  | fkReferences =>
    ⟨"fk-references", .keyword .references, none, [fkReferencedTableName]⟩
  | fkReferencedTableName =>
    ⟨"fk-referenced-table-name", .name, some .fkReferencedTableName, [fkReferencedOpen]⟩
  | fkReferencedOpen => ⟨"fk-referenced-open", .opening, none, [fkReferencedColumnName]⟩
  | fkReferencedColumnName =>
    ⟨"fk-referenced-column-name", .name, some .fkReferencedColumnName,
      [fkReferencedComma, fkReferencedClose]⟩
  | fkReferencedComma => ⟨"fk-referenced-comma", .comma, none, [fkReferencedColumnName]⟩
  | fkReferencedClose => ⟨"fk-referenced-close", .closing, none, [constraintEnd]⟩
  | tableEnd => ⟨"table-end", .idle, some .tableEnd, [finish]⟩
  | finish => ⟨"end", .finish, none, []⟩
  | doCreateUniqueIndex =>
    ⟨"do-create-unique-index", .keyword .unique, some .doCreateUniqueIndex, [uniqueIndex]⟩
  | uniqueIndex => ⟨"unique-index", .keyword .index, none, [indexStart]⟩
  | indexStart => ⟨"index-start", .idle, none, [indexIf, indexName]⟩
  | doCreateIndex => ⟨"do-create-index", .keyword .index, some .doCreateIndex, [indexStart]⟩
  | indexIf => ⟨"index-if", .keyword .ifWord, none, [indexIfNot]⟩
  | indexIfNot => ⟨"index-if-not", .keyword .not, none, [indexIfExists]⟩
  | indexIfExists => ⟨"index-if-exists", .keyword .existsWord, none, [indexName]⟩
  | indexName => ⟨"index-name", .name, some .indexName, [indexOn]⟩
  | indexOn => ⟨"index-on", .keyword .onWord, none, [indexTableName]⟩
  | indexTableName => ⟨"index-table-name", .name, some .indexTableName, [indexOpen]⟩
  | indexOpen => ⟨"index-open", .opening, none, [indexColumnName]⟩
  | indexColumnName =>
    ⟨"index-column-name", .name, some .indexColumnName, [indexColumnAscOrDesc, indexColumnEnd]⟩
  | indexColumnAscOrDesc =>
    ⟨"index-column-asc-or-desc", .oneOf [.asc, .desc], some .indexColumnAscOrDesc,
      [indexColumnEnd]⟩
  | indexColumnEnd => ⟨"index-column-end", .idle, none, [indexComma, indexClose]⟩
  | indexComma => ⟨"index-comma", .comma, none, [indexColumnName]⟩
  | indexClose => ⟨"index-close", .closing, none, [finish]⟩

def matcher (s : State) : Matcher := s.row.matcher

def action (s : State) : Option Action := s.row.action

def next (s : State) : List State := s.row.next

/-- The number of the node. -/
def id (s : State) : Nat := s.ctorIdx

def all : List State := (List.range 71).map State.ofNat

def node (s : State) : Node Action :=
  ⟨s.matcher.kind, some s.row.name, s.action, s.next.map id⟩

theorem all_get_id (s : State) : all[s.id]? = some s := by cases s <;> rfl

theorem mem_all (s : State) : s ∈ all := List.mem_of_getElem? s.all_get_id

end State

/-- The graph of the grammar, with its actions. -/
def graph : Graph Action := ⟨State.all.map State.node, State.root.id⟩

@[simp] theorem node_graph (s : State) : graph.node s.id = s.node := by
  simp [Graph.node, graph, State.all_get_id]

/-- Whether a graph has just the nodes of the states, each under its number. -/
def hasStates (g : Graph Action) : Bool :=
  (g.root == 0 && g.nodes.length == 71) &&
    (List.range 71).all fun i => decide (g.node i = (State.ofNat i).node)

theorem eq_graph_of_hasStates {g : Graph Action} (h : hasStates g = true) : g = graph := by
  simp only [hasStates, Bool.and_eq_true, beq_iff_eq, List.all_eq_true, decide_eq_true_eq,
    List.mem_range] at h
  obtain ⟨⟨hroot, hsize⟩, hnode⟩ := h
  have hnodes : g.nodes = State.all.map State.node := by
    apply List.ext_getElem
    · simp [hsize, State.all]
    · intro i hi _
      have hn := hnode i (by omega)
      rw [Graph.node, List.getElem?_eq_getElem hi] at hn
      simpa [State.all] using hn
  obtain ⟨nodes, root⟩ := g
  rw [show nodes = _ from hnodes, show root = _ from hroot]
  rfl

end Sqlite
end DdlSchema
