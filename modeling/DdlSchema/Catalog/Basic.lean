import DdlSchema.Sqlite.Parser
import DdlSchema.Statement

/-! Catalogs: the statements that a database keeps for its objects. -/
namespace DdlSchema
namespace Catalog

inductive ObjectKind where
  | table
  | index
deriving DecidableEq, Repr

def ObjectKind.name : ObjectKind → String
  | table => "table"
  | index => "index"

/-- One stored object. The table of a table is itself. -/
structure Entry where
  kind : ObjectKind
  name : String
  tableName : String
  sql : String
deriving DecidableEq, Repr

namespace Entry

def table (name sql : String) : Entry := ⟨.table, name, name, sql⟩

def index (name tableName sql : String) : Entry := ⟨.index, name, tableName, sql⟩

/-- Objects that the database keeps for itself. -/
def isInternal (e : Entry) : Bool := "sqlite_".toList.isPrefixOf e.name.toList

/-- The entry of a clause that a statement defines. -/
def ofClause (sql : String) : Clause → Entry
  | .table t => table t.name sql
  | .index i => index i.name i.table sql

end Entry

/-- The entries of a script: one for each clause of its statements. -/
def ofScript (script : String) : Except Error (List Entry) := do
  let entries ← (Statement.split script).mapM fun s => do
    .ok ((← Sqlite.parse s.text).map (Entry.ofClause s.text))
  .ok entries.flatten

end Catalog

/-- Where entries come from. Reading them may fail with a message. -/
structure Catalog where
  entries : Except String (List Catalog.Entry)

end DdlSchema
