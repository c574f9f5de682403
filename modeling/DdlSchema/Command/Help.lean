import DdlSchema.Command.Arguments

/-! Help on the command line: what a topic is about, its usage, and its parts in two columns. -/
namespace DdlSchema
namespace Command

/-- What may be written, and what it means. -/
abbrev Entry := String × String

namespace Entry

def color : Entry := ("    --color <WHEN>",
  "Colorize diagnostics [default: auto] [possible values: auto, always, never]")

def sql : Entry := ("-s, --sql <SQL>", "Inline DDL text")

def verbose : Entry :=
  ("-v, --verbose...", "Verbosity level (-v for debug logs, -vv for trace logs)")

def help : Entry := ("-h, --help", "Print help")

def compact : Entry := ("    --compact", "Output compact JSON instead of pretty-printed")

def noConstraints : Entry :=
  ("    --no-constraints", "Emit columns only, without primary and foreign keys")

def all : Entry := ("    --all", "Include nodes unreachable from the root")

def noHooks : Entry := ("    --no-hooks", "Hide semantic hook bindings")

end Entry

namespace Name

def list : List Name := [parse, tokens, script, graph, keywords]

def text : Name → String
  | parse => "parse"
  | tokens => "tokens"
  | script => "script"
  | graph => "graph"
  | keywords => "keywords"

@[simp] theorem ofText?_text (n : Name) : ofText? n.text = some n := by cases n <;> rfl

def about : Name → String
  | parse => "Parse DDL and print the resulting clauses as JSON"
  | tokens => "Print the tokens of every statement"
  | script => "Parse DDL and print it back in normalised form"
  | graph => "Dump the compiled SQLite grammar graph"
  | keywords => "List the reserved words of the SQLite grammar"

/-- The options of a subcommand, in the order of its help. -/
def options : Name → List Entry
  | parse => [.color, .compact, .sql, .verbose, .help]
  | tokens => [.color, .sql, .verbose, .help]
  | script => [.color, .noConstraints, .sql, .verbose, .help]
  | graph => [.all, .color, .noHooks, .verbose, .help]
  | keywords => [.color, .verbose, .help]

def arguments (name : Name) : List Entry :=
  if name.readsInput then [("[FILE]", "DDL script file, or - for stdin")] else []

def examples (program : String) : Name → List String
  | parse => [s!"{program} parse schema.sql", s!"{program} parse schema.sql --compact",
      s!"{program} parse -s 'CREATE TABLE t(id integer)'",
      s!"cat schema.sql | {program} parse -"]
  | tokens => [s!"{program} tokens schema.sql",
      s!"{program} tokens -s 'CREATE INDEX ix ON t([a] DESC)'"]
  | script => [s!"{program} script schema.sql", s!"{program} script schema.sql --no-constraints"]
  | graph | keywords => []

end Name

/-- The width of the first column. -/
def widest : List Entry → Nat
  | [] => 0
  | e :: es => max e.1.length (widest es)

/-- A titled part of the help. The second column begins two blanks behind the widest first one. -/
def titled (title : String) (entries : List Entry) : String :=
  if entries.isEmpty then ""
  else
    let width := widest entries + 2
    let line := fun e : Entry =>
      "  " ++ e.1 ++ .ofList (List.replicate (width - e.1.length) ' ') ++ e.2 ++ "\n"
    "\n" ++ title ++ ":\n" ++ String.join (entries.map line)

namespace Topic

/-- Help as a subcommand. -/
def helpEntry : Entry := ("help", "Print this message or the help of the given subcommand(s)")

def about : Topic → String
  | overview => "Reconstruct tables and indexes from SQLite DDL"
  | command name => name.about
  | help => helpEntry.2

def usage (program : String) : Topic → String
  | overview => s!"{program} [OPTIONS] <COMMAND>"
  | command name =>
    s!"{program} {name.text} [OPTIONS]" ++ if name.readsInput then " [FILE]" else ""
  | help => s!"{program} help [COMMAND]..."

/-- What stands below the usage. -/
def parts (program : String) : Topic → String
  | overview =>
    titled "Commands" (Name.list.map (fun name => (name.text, name.about)) ++ [helpEntry]) ++
      titled "Options" [.color, .verbose, .help]
  | command name =>
    titled "Arguments" name.arguments ++ titled "Options" name.options ++
      match name.examples program with
      | [] => ""
      | lines => "\nEXAMPLES:\n" ++ String.join (lines.map fun line => s!"  {line}\n")
  | help => titled "Arguments" [("[COMMAND]...", "Print help for the subcommand(s)")]

/-- The help on a topic, for a program of some name. -/
def describe (program : String) (t : Topic) : String :=
  s!"{t.about}\n\nUsage: {t.usage program}\n" ++ t.parts program

end Topic
end Command
end DdlSchema
