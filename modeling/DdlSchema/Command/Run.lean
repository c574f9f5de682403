import DdlSchema.Command.Help
import DdlSchema.Diagnostic.Report
import DdlSchema.Graph.Dump
import DdlSchema.Json.Writer
import DdlSchema.Schema.Form
import DdlSchema.Script
import DdlSchema.Statement

/-! What the tasks of the command line print. -/
namespace DdlSchema
namespace Command

/-- What a command leaves: its exit code and its output. -/
structure Result where
  code : Nat
  out : String := ""
  err : String := ""
deriving DecidableEq, Repr

/-- The text to work on, and the path of its file. -/
structure Input where
  text : String
  path : Option String := none

/-- An error, with the statement of the script where it arose. -/
structure Failure where
  error : Error
  statement : Option Extent := none

/-- The end of a command without a result. -/
def Result.failure (message : String) : Result := ⟨1, "", message ++ "\n"⟩

/-- The end of a command that breaks off. -/
def Result.brokenOff : Result := ⟨101, "", ""⟩

def Failure.result (draw : Diagnostic.Drawing) (input : Input) (f : Failure) : Result :=
  let report : Diagnostic.Report := ⟨f.error, input.text, input.path, f.statement⟩
  (report.announce draw).elim .brokenOff .failure

/-- The clauses of all statements, up to the first that fails. -/
def parseStatements (d : Draft) : List Statement → Except Failure (List Clause)
  | [] => .ok d.clauses
  | s :: more =>
    let parsed := Sqlite.parser.parseInto s.text d
    match parsed.verdict with
    | .ok () => parseStatements parsed.draft more
    | .error e => .error ⟨e, s.extent⟩

def parseScript (script : String) : Except Failure (List Clause) :=
  parseStatements {} (Statement.split script)

/-- The line of a token of a statement that begins at `start`. -/
def tokenLine (start : Nat) (t : Token) : String :=
  let e := t.span.shift start
  s!"{e.start}..{e.stop} {t.describe}\n"

/-- The tokens of each statement, with a blank line between statements. -/
def listTokens (script : String) : Except Failure String := do
  let blocks ← (Statement.split script).mapM fun s =>
    match tokenize Sqlite.parser.lexer s.text with
    | .ok tokens => .ok (String.join (tokens.map (tokenLine s.start)))
    | .error e => .error (⟨.lex e, s.extent⟩ : Failure)
  .ok ("\n".intercalate blocks)

def clausesText (compact : Bool) (clauses : List Clause) : String :=
  let json := Json.arr (clauses.map Clause.toJson)
  if compact then json.compact else json.pretty

def renderScript (withConstraints : Bool) (script : String) : Except Failure String := do
  let clauses ← parseScript script
  match Script.render .brackets withConstraints clauses with
  | .ok text => .ok (text ++ "\n")
  | .error e => .error ⟨.script e, none⟩

def listKeywords : String :=
  let words := Sqlite.parser.reserved.words
  s!"Reserved words ({words.length}):\n" ++ String.join (words.map fun word => s!"  {word}\n")

/-- The output of a task on a text. -/
def output (input : Input) : Task → Except Failure String
  | .parse compact =>
    (parseScript input.text).map fun clauses => clausesText compact clauses ++ "\n"
  | .tokens => listTokens input.text
  | .script withConstraints => renderScript withConstraints input.text
  | .graph onlyReachable withHooks => .ok (Sqlite.parser.graph.dump onlyReachable
    (if withHooks then some Sqlite.Action.title else none))
  | .keywords => .ok listKeywords

/-- Runs a task on a text. -/
def run (draw : Diagnostic.Drawing) (input : Input) (task : Task) : Result :=
  match output input task with
  | .ok text => ⟨0, text, ""⟩
  | .error f => f.result draw input

/-- The end of a command that lacks an input. -/
def missingInput : Result :=
  .failure "error: input is required: pass a FILE, `-` for stdin, or -s/--sql"

/-- The end of a command whose file cannot be read. -/
def unreadableFile (path reason : String) : Result :=
  .failure s!"error: failed to read '{path}': {reason}"

def unreadableInput (reason : String) : Result :=
  .failure s!"error: failed to read stdin: {reason}"

/-- Runs an invocation, with a way to draw errors and a way to read files and the standard input. -/
def perform (draw : Diagnostic.Drawing) (read : InputSource → Except String String) (i : Invocation) :
    Result :=
  if !i.task.readsInput then run draw ⟨"", none⟩ i.task
  else match i.input with
    | .inline text => run draw ⟨text, none⟩ i.task
    | .missing => missingInput
    | .standardInput =>
      match read i.input with
      | .ok text => run draw ⟨text, none⟩ i.task
      | .error reason => unreadableInput reason
    | .file path =>
      match read i.input with
      | .ok text => run draw ⟨text, path⟩ i.task
      | .error reason => unreadableFile path reason

/-- The end of a command whose arguments are no invocation, for a program of some name. -/
def Refusal.result (program : String) : Refusal → Result
  | .usage =>
    ⟨2, "", "error: the arguments cannot be used\n\n" ++ Topic.overview.describe program⟩
  | .help topic => ⟨0, topic.describe program, ""⟩

end Command
end DdlSchema
