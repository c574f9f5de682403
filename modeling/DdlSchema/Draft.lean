import DdlSchema.Schema

/-! Clauses in the making. Actions change the last clause, and in it the last column, key or index
column. -/
namespace DdlSchema

inductive DraftError where
  | noClause
  | wrongClause (expected found : String)
  | noColumn
  | noPrimaryKey
  | noForeignKey
  | noIndexColumn
  | missingToken
  | unexpectedToken (found : String)
  | unknownDirection (text : String)
deriving DecidableEq, Repr

namespace DraftError

def message : DraftError → String
  | noClause => "no clause has been started"
  | wrongClause expected found => s!"current clause is {found}, expected {expected}"
  | noColumn => "current table has no columns"
  | noPrimaryKey => "current table has no primary key"
  | noForeignKey => "current table has no foreign keys"
  | noIndexColumn => "current index has no columns"
  | missingToken => "hook needs a token but the input has ended"
  | unexpectedToken found => s!"hook cannot use {found}"
  | unknownDirection text => s!"unknown sort direction `{text}`"

end DraftError

/-- The clauses so far and the number of steps that led to them, failed statements included. The number is
not bounded; on a machine it has 64 bits, more than statements can count. -/
structure Draft where
  clauses : List Clause := []
  version : Nat := 0
deriving DecidableEq, Repr, Inhabited

namespace Draft

def add (d : Draft) (c : Clause) : Draft := { d with clauses := d.clauses ++ [c] }

/-- Counts one step. -/
def tick (d : Draft) : Draft := { d with version := d.version + 1 }

/-- Drops the clauses behind the first `count`. The version stays. -/
def rollback (d : Draft) (count : Nat) : Draft := { d with clauses := d.clauses.take count }

def last? (d : Draft) : Option Clause := d.clauses.getLast?

/-- Puts a clause in the place of the last one. -/
def replaceLast (d : Draft) (c : Clause) : Draft :=
  { d with clauses := d.clauses.dropLast ++ [c] }

def currentTable (d : Draft) : Except DraftError Table :=
  match d.last? with
  | some (.table t) => .ok t
  | some c => .error (.wrongClause "table" c.kindName)
  | none => .error .noClause

def currentIndex (d : Draft) : Except DraftError Index :=
  match d.last? with
  | some (.index i) => .ok i
  | some c => .error (.wrongClause "index" c.kindName)
  | none => .error .noClause

theorem bind_eq_ok {ε α β : Type} {x : Except ε α} {f : α → Except ε β} {b : β}
    (h : x >>= f = .ok b) : ∃ a, x = .ok a ∧ f a = .ok b := by
  cases x with
  | error e => cases h
  | ok a => exact ⟨a, rfl, h⟩

section MapError

variable {ε ε' α : Type} (f : ε → ε')

@[simp] theorem mapError_ok (a : α) : (Except.ok a : Except ε α).mapError f = .ok a := rfl

@[simp] theorem mapError_error (e : ε) : (Except.error e : Except ε α).mapError f = .error (f e) := rfl

end MapError

/-- The value, or the error that it is missing. -/
def require {α : Type} (e : DraftError) : Option α → Except DraftError α
  | some a => .ok a
  | none => .error e

def currentColumn (d : Draft) : Except DraftError Column := do
  require .noColumn (← d.currentTable).columns.getLast?

def currentPrimaryKey (d : Draft) : Except DraftError PrimaryKey := do
  require .noPrimaryKey (← d.currentTable).primaryKey

def currentForeignKey (d : Draft) : Except DraftError ForeignKey := do
  require .noForeignKey (← d.currentTable).foreignKeys.getLast?

def currentIndexColumn (d : Draft) : Except DraftError IndexColumn := do
  require .noIndexColumn (← d.currentIndex).columns.getLast?

def onTable (f : Table → Table) (d : Draft) : Except DraftError Draft := do
  .ok (d.replaceLast (.table (f (← d.currentTable))))

def onIndex (f : Index → Index) (d : Draft) : Except DraftError Draft := do
  .ok (d.replaceLast (.index (f (← d.currentIndex))))

def onColumn (f : Column → Column) (d : Draft) : Except DraftError Draft := do
  let c ← d.currentColumn
  d.onTable fun t => { t with columns := t.columns.dropLast ++ [f c] }

def onPrimaryKey (f : PrimaryKey → PrimaryKey) (d : Draft) : Except DraftError Draft := do
  let k ← d.currentPrimaryKey
  d.onTable fun t => { t with primaryKey := some (f k) }

def onForeignKey (f : ForeignKey → ForeignKey) (d : Draft) : Except DraftError Draft := do
  let k ← d.currentForeignKey
  d.onTable fun t => { t with foreignKeys := t.foreignKeys.dropLast ++ [f k] }

def onIndexColumn (f : IndexColumn → IndexColumn) (d : Draft) : Except DraftError Draft := do
  let c ← d.currentIndexColumn
  d.onIndex fun i => { i with columns := i.columns.dropLast ++ [f c] }

end Draft
end DdlSchema
