import DdlSchema.Sqlite.Grammar
import DdlSchema.Sqlite.State

/-! The SQLite dialect: its lexer, the nodes of its literals, and its parser. -/
namespace DdlSchema
namespace Sqlite

def lexer : LexerConfig := { delimiters := [.brackets, .doubleQuotes] }

/-- Literals are one punctuation character, or a word that begins with a letter. -/
def literal (text : String) (m : Mold) : Except GraphError NodeKind :=
  match text.toList with
  | [] => unknown
  | c :: cs =>
    if cs.isEmpty && lexer.isPunctuation c then .ok (.exactPunctuation c)
    else if c.isAlpha && cs.all Lexer.continuesWord then .ok (.exactWord text)
    else unknown
where
  unknown : Except GraphError NodeKind := .error (.unknownVertexKind (Text.quoted text) m.extent)

def factory : VertexFactory := .ofLiteral literal

/-- Every action on the node of its name. -/
def hooks : List (String × Action) := Action.all.map fun a => (a.nodeName, a)

/-- A parser of the dialect with a grammar and hooks of its own. -/
def parserOf (grammar : String) (hooks : List (String × Action)) : Except Error (Parser Action) :=
  Parser.ofGrammar grammar factory lexer act hooks

/-- The value of a computation that does not fail. -/
def value {ε α : Type} : (x : Except ε α) → x.isOk = true → α
  | .ok a, _ => a

theorem value_eq {ε α : Type} {x : Except ε α} {a : α} {h : x.isOk = true} (hx : x = .ok a) :
    value x h = a := by
  subst hx
  rfl

theorem eq_ok_of_hasStates {x : Except Error (Parser Action)}
    (h : x.toOption.any (fun p => hasStates p.graph) = true)
    (hx : ∀ p, x = .ok p → ∃ g, p = .ofGraph lexer g act) : x = .ok (.ofGraph lexer graph act) := by
  cases x with
  | error e => cases h
  | ok p =>
    obtain ⟨g, rfl⟩ := hx p rfl
    have hg : g = graph := eq_graph_of_hasStates h
    rw [hg]

theorem hasStates_parserOf :
    (parserOf grammar hooks).toOption.any (fun p => hasStates p.graph) = true := by
  unfold parserOf Parser.ofGrammar Mold.compile
  rw [toList_grammar]
  decide +kernel

/-- The grammar compiles to the graph of the states. -/
theorem parserOf_eq : parserOf grammar hooks = .ok (.ofGraph lexer graph act) :=
  eq_ok_of_hasStates hasStates_parserOf fun _ => Parser.eq_ofGraph_of_ofGrammar

theorem parserOf_isOk : (parserOf grammar hooks).isOk = true := by rw [parserOf_eq]; rfl

/-- The parser of the dialect. -/
def parser : Parser Action := value (parserOf grammar hooks) parserOf_isOk

theorem parser_eq : parser = .ofGraph lexer graph act := value_eq parserOf_eq

@[simp] theorem parser_lexer : parser.lexer = lexer := by rw [parser_eq, Parser.ofGraph_lexer]

@[simp] theorem parser_graph : parser.graph = graph := by rw [parser_eq, Parser.ofGraph_graph]

@[simp] theorem parser_reserved : parser.reserved = graph.reserved := by
  rw [parser_eq, Parser.ofGraph_reserved]

@[simp] theorem parser_act : parser.act = act := by rw [parser_eq, Parser.ofGraph_act]

@[simp] theorem parser_fuel : parser.fuel = Parser.defaultFuel := by
  rw [parser_eq, Parser.ofGraph_fuel]

/-- The clauses of one statement. -/
def parse (sql : String) : Except Error (List Clause) := parser.parse sql

end Sqlite
end DdlSchema
