import DdlSchema.Draft
import DdlSchema.Graph.Build
import DdlSchema.Graph.Wire
import DdlSchema.Mold.Token
import DdlSchema.Token.Lexer

/-! What can go wrong between a grammar or statement text and finished clauses. -/
namespace DdlSchema

/-- A token that fits nowhere, or a statement that the dialect rejects. -/
inductive ParseError where
  | unexpectedToken (found : String) (span : Span) (expected : List String)
  | unexpectedEnd (expected : List String)
  | invalidValue (found : String) (span : Span) (reason : String)
  | conflictingPrimaryKey (table : String) (span : Option Span)
deriving DecidableEq, Repr

namespace ParseError

/-- `a`, `a or b`, `a, b or c`. -/
def oneOf : List String → String
  | [] => "nothing"
  | [a] => a
  | [a, b] => s!"{a} or {b}"
  | a :: b :: c :: more => s!"{a}, {oneOf (b :: c :: more)}"

def message : ParseError → String
  | unexpectedToken found span expected =>
    s!"unexpected {found} at {span.position.text}, expected {oneOf expected}"
  | unexpectedEnd expected => s!"unexpected end of input, expected {oneOf expected}"
  | invalidValue found span reason => s!"invalid {found} at {span.position.text}: {reason}"
  | conflictingPrimaryKey table _ => s!"table `{table}` declares more than one primary key"

def expected : ParseError → List String
  | unexpectedToken _ _ expected | unexpectedEnd expected => expected
  | invalidValue .. | conflictingPrimaryKey .. => []

def span? : ParseError → Option Span
  | unexpectedToken _ span _ | invalidValue _ span _ => some span
  | conflictingPrimaryKey _ span => span
  | unexpectedEnd _ => none

end ParseError

/-- A schema object that cannot be written as a statement. -/
inductive ScriptError where
  | foreignKeyColumnMismatch (table : String) (name : Option String) (own referenced : Nat)
  | emptyColumnList (owner what : String)
  | identityWithoutPrimaryKey (table column : String)
  | missingTypeName (table column : String)
deriving DecidableEq, Repr

namespace ScriptError

def message : ScriptError → String
  | foreignKeyColumnMismatch table name own referenced =>
    let key := name.elim "(unnamed)" fun name => s!"`{name}`"
    s!"foreign key {key} of table `{table}` has {own} local and {referenced} referenced columns"
  | emptyColumnList owner what => s!"{what} of `{owner}` has no columns"
  | identityWithoutPrimaryKey table column =>
    s!"identity column `{column}` of table `{table}` must be the table's only primary key column"
  | missingTypeName table column => s!"column `{column}` of table `{table}` has no type"

end ScriptError

inductive Error where
  | lex (error : LexError)
  | grammar (error : GrammarError)
  | graph (error : GraphError)
  | wiring (error : WiringError)
  | parse (error : ParseError)
  | draft (error : DraftError)
  /-- More than one node accepts the token. -/
  | ambiguous (found : String) (nodes : List String) (span : Option Span)
  | fuelExhausted (limit : Nat)
  | script (error : ScriptError)
deriving DecidableEq, Repr

namespace Error

def message : Error → String
  | lex e => e.message
  | grammar e => e.message
  | graph e => e.message
  | wiring e => e.message
  | parse e => e.message
  | draft e => e.message
  | ambiguous found nodes _ => s!"ambiguous transition on {found}: " ++ ", ".intercalate nodes
  | fuelExhausted limit => s!"execution limit of {limit} steps exceeded"
  | script e => e.message

/-- Whether the statement is at fault and not the dialect. -/
def isStatementError : Error → Bool
  | lex _ | parse _ => true
  | _ => false

/-- Where in the statement the error is. -/
def span? : Error → Option Span
  | lex e => some e.span
  | parse e => e.span?
  | ambiguous _ _ span => span
  | _ => none

end Error
end DdlSchema
