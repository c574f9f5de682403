import DdlSchema.Catalog.Basic
import DdlSchema.Catalog.Order

/-! Tables and indexes read back from the statements of a catalog. Internal objects are left out. -/
namespace DdlSchema

inductive ExplorerError where
  | catalog (reason : String)
  | tableNotFound (name : String)
  | parse (name : String) (source : Error)
  | unexpectedClauses (name expected : String) (found : Nat)
deriving DecidableEq, Repr

namespace ExplorerError

def message : ExplorerError → String
  | catalog reason => s!"catalog read failed: {reason}"
  | tableNotFound name => s!"table `{name}` does not exist"
  | parse name source => s!"cannot parse `{name}`: {source.message}"
  | unexpectedClauses name expected found =>
    s!"statement of `{name}` does not define a single {expected} ({found} clauses)"

/-- Whether one stored statement is at fault. -/
def isStatementError : ExplorerError → Bool
  | parse _ source => source.isStatementError
  | _ => false

end ExplorerError

namespace Catalog

/-- The entries of one kind, by name. Entries of one name keep their order. -/
def entriesOf (c : Catalog) (kind : ObjectKind) : Except ExplorerError (List Entry) := do
  let entries ← c.entries.mapError .catalog
  .ok ((entries.filter fun e => e.kind == kind && !e.isInternal).mergeSort
    fun a b => decide (a.name ≤ b.name))

/-- The one clause that an entry defines. -/
def Entry.clause (e : Entry) : Except ExplorerError Clause := do
  match ← (Sqlite.parse e.sql).mapError (.parse e.name) with
  | [c] => .ok c
  | cs => .error (.unexpectedClauses e.name e.kind.name cs.length)

def Entry.readTable (e : Entry) : Except ExplorerError Table := do
  match ← e.clause with
  | .table t => .ok t
  | .index _ => .error (.unexpectedClauses e.name "table" 1)

def Entry.readIndex (e : Entry) : Except ExplorerError Index := do
  match ← e.clause with
  | .index i => .ok i
  | .table _ => .error (.unexpectedClauses e.name "index" 1)

def tableNames (c : Catalog) : Except ExplorerError (List String) := do
  .ok ((← c.entriesOf .table).map (·.name))

def hasTable (c : Catalog) (name : String) : Except ExplorerError Bool := do
  .ok ((← c.entriesOf .table).any (·.name == name))

def indexEntries (c : Catalog) (table : String) : Except ExplorerError (List Entry) := do
  .ok ((← c.entriesOf .index).filter (·.tableName == table))

/-- The indexes of a table by name, whether or not there is such a table. -/
def indexesOf (c : Catalog) (table : String) : Except ExplorerError (List Index) := do
  (← c.indexEntries table).mapM Entry.readIndex

/-- The table of an entry, with its indexes where they are asked for. -/
def load (c : Catalog) (withIndexes : Bool) (e : Entry) : Except ExplorerError Table := do
  let t ← e.readTable
  if withIndexes then
    .ok { t with indexes := ← c.indexesOf e.name }
  else .ok t

def table (c : Catalog) (withIndexes : Bool) (name : String) : Except ExplorerError Table := do
  match (← c.entriesOf .table).find? (·.name == name) with
  | some e => c.load withIndexes e
  | none => .error (.tableNotFound name)

def indexes (c : Catalog) (table : String) : Except ExplorerError (List Index) := do
  if ← c.hasTable table then c.indexesOf table else .error (.tableNotFound table)

/-- All tables, by name or in the order of their foreign keys. -/
def tables (c : Catalog) (withIndexes : Bool) (independentFirst : Option Bool) :
    Except ExplorerError (List Table) := do
  let tables ← (← c.entriesOf .table).mapM (c.load withIndexes)
  .ok (independentFirst.elim tables (arrange · tables))

/-- Reads what can be read, with the statement errors of what cannot. Any other error ends it. -/
def salvage {α β : Type} (read : α → Except ExplorerError (β × List ExplorerError)) :
    List α → Except ExplorerError (List β × List ExplorerError)
  | [] => .ok ([], [])
  | a :: as =>
    match read a with
    | .ok (b, skipped) => do
      let (bs, more) ← salvage read as
      .ok (b :: bs, skipped ++ more)
    | .error e =>
      if e.isStatementError then do
        let (bs, more) ← salvage read as
        .ok (bs, e :: more)
      else .error e

/-- The table of an entry with those of its indexes that can be read. -/
def salvageTable (c : Catalog) (withIndexes : Bool) (e : Entry) :
    Except ExplorerError (Table × List ExplorerError) := do
  let t ← e.readTable
  if withIndexes then
    let (indexes, skipped) ← salvage (fun e => return (← e.readIndex, [])) (← c.indexEntries e.name)
    .ok ({ t with indexes }, skipped)
  else .ok (t, [])

/-- All tables that can be read, by name, and the errors of what cannot. -/
def tablesLenient (c : Catalog) (withIndexes : Bool) :
    Except ExplorerError (List Table × List ExplorerError) := do
  salvage (c.salvageTable withIndexes) (← c.entriesOf .table)

end Catalog
end DdlSchema
