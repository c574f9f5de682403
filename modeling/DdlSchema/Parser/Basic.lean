import DdlSchema.Graph.Explore
import DdlSchema.Mold.Reader
import DdlSchema.Parser.Error

/-! Walking the tokens of a statement through a graph. Each step enters the one candidate node that
accepts the next token, looking through idle nodes, and fires its hook. -/
namespace DdlSchema

/-- A draft, and whether the work on it came to its end. -/
structure Outcome (ε : Type) where
  draft : Draft
  verdict : Except ε Unit

/-- Why a hook fails: the draft cannot take it, or the dialect rejects the statement. -/
inductive HookError where
  | draft (error : DraftError)
  | rejected (error : ParseError)
deriving DecidableEq, Repr

def HookError.toError : HookError → Error
  | draft e => .draft e
  | rejected e => .parse e

/-- What a hook sees of the statement: the token that its node takes, or the next one where the node takes
none, and the tokens that are not taken yet. -/
structure Context where
  token : Option Token
  remaining : List Token

/-- What hooks do to a draft. -/
abbrev Semantics (Hook : Type) := Hook → Context → Draft → Outcome HookError

structure Parser (Hook : Type) where
  lexer : LexerConfig
  graph : Graph Hook
  reserved : ReservedWords
  act : Semantics Hook
  /-- The most steps that a statement may take. On a machine this number has 32 bits. -/
  fuel : Nat

namespace Parser

variable {Hook : Type}

def defaultFuel : Nat := 1000000

/-- The parser of a wired graph, whose keywords are reserved. -/
def ofGraph (lexer : LexerConfig) (graph : Graph Hook) (act : Semantics Hook) : Parser Hook :=
  ⟨lexer, graph, graph.reserved, act, defaultFuel⟩

section OfGraph

variable (lexer : LexerConfig) (graph : Graph Hook) (act : Semantics Hook)

@[simp] theorem ofGraph_lexer : (ofGraph lexer graph act).lexer = lexer := rfl

@[simp] theorem ofGraph_graph : (ofGraph lexer graph act).graph = graph := rfl

@[simp] theorem ofGraph_reserved : (ofGraph lexer graph act).reserved = graph.reserved := rfl

@[simp] theorem ofGraph_act : (ofGraph lexer graph act).act = act := rfl

@[simp] theorem ofGraph_fuel : (ofGraph lexer graph act).fuel = defaultFuel := rfl

end OfGraph

/-- The parser of a grammar text, with hooks on the nodes of the given names. -/
def ofGrammar (grammar : String) (factory : VertexFactory) (lexer : LexerConfig)
    (act : Semantics Hook) (hooks : List (String × Hook)) : Except Error (Parser Hook) := do
  let mold ← (Mold.compile grammar).mapError .grammar
  let graph ← (Graph.build factory mold).mapError .graph
  let (graph, wired) := graph.wire hooks
  wired.mapError .wiring
  .ok (ofGraph lexer graph act)

theorem eq_ofGraph_of_ofGrammar {grammar : String} {factory : VertexFactory} {lexer : LexerConfig}
    {act : Semantics Hook} {hooks : List (String × Hook)} {p : Parser Hook}
    (h : ofGrammar grammar factory lexer act hooks = .ok p) :
    ∃ graph, p = ofGraph lexer graph act := by
  unfold ofGrammar at h
  obtain ⟨mold, -, h⟩ := Draft.bind_eq_ok h
  obtain ⟨graph, -, h⟩ := Draft.bind_eq_ok h
  obtain ⟨-, -, h⟩ := Draft.bind_eq_ok h
  exact ⟨_, (Except.ok.inj h).symm⟩

/-- Whether a node that is not idle fits the next token, or the end where there is none. -/
def fits (p : Parser Hook) (next : Option Token) (id : Nat) : Bool :=
  match (p.graph.node id).kind, next with
  | .finish, next => next.isNone
  | kind, some token => kind.accepts token.kind p.reserved
  | _, none => false

/-- Whether something fits behind a node when one looks through idle nodes. -/
def accepts (p : Parser Hook) (next : Option Token) (id : Nat) : Bool :=
  (p.graph.frontier [id]).any (p.fits next)

/-- What would fit behind some nodes, each description once. -/
def expected (p : Parser Hook) (candidates : List Nat) : List String :=
  ((p.graph.frontier candidates).flatMap fun id => (p.graph.node id).kind.expected).eraseDups

/-- A node as messages name it. -/
def label (p : Parser Hook) (id : Nat) : String :=
  let node := p.graph.node id
  match node.name with
  | some name => s!"N{id} @{name}"
  | none => s!"N{id} {node.kind.text}"

/-- The one candidate that accepts the next token. -/
def select (p : Parser Hook) (candidates : List Nat) (next : Option Token) : Except Error Nat :=
  match candidates.filter (p.accepts next) with
  | [id] => .ok id
  | [] =>
    let expected := p.expected candidates
    match next with
    | some token => .error (.parse (.unexpectedToken token.describe token.span expected))
    | none => .error (.parse (.unexpectedEnd expected))
  | ids =>
    .error (.ambiguous ((next.map Token.describe).getD "end of input") (ids.map p.label)
      (next.map Token.span))

/-- What the hook of a node sees when the node is entered with some tokens left. -/
def context (p : Parser Hook) (id : Nat) (tokens : List Token) : Context where
  token := tokens.head?
  remaining := if (p.graph.node id).kind.consumes then tokens.tail else tokens

/-- Counts the step into a node and fires its hook. -/
def enter (p : Parser Hook) (id : Nat) (tokens : List Token) (d : Draft) : Outcome HookError :=
  match (p.graph.node id).hook with
  | none => ⟨d.tick, .ok ()⟩
  | some hook => p.act hook (p.context id tokens) d.tick

/-- Walks on from some candidates until an end node is entered. -/
def walk (p : Parser Hook) : Nat → List Nat → List Token → Draft → Outcome Error
  | 0, _, _, d => ⟨d, .error (.fuelExhausted p.fuel)⟩
  | fuel + 1, candidates, tokens, d =>
    match p.select candidates tokens.head? with
    | .error e => ⟨d, .error e⟩
    | .ok id =>
      let entered := p.enter id tokens d
      match entered.verdict with
      | .error e => ⟨entered.draft, .error e.toError⟩
      | .ok () =>
        let node := p.graph.node id
        if node.kind = .finish then ⟨entered.draft, .ok ()⟩
        else walk p fuel node.successors (if node.kind.consumes then tokens.tail else tokens)
          entered.draft

/-- Walks one statement. On an error the clauses that it has started are dropped. -/
def parseTokens (p : Parser Hook) (tokens : List Token) (d : Draft) : Outcome Error :=
  let walked := p.walk p.fuel [p.graph.root] tokens d
  match walked.verdict with
  | .ok () => walked
  | .error e => ⟨walked.draft.rollback d.clauses.length, .error e⟩

/-- Adds the clauses of one statement text to a draft. -/
def parseInto (p : Parser Hook) (sql : String) (d : Draft) : Outcome Error :=
  match tokenize p.lexer sql with
  | .error e => ⟨d, .error (.lex e)⟩
  | .ok tokens => p.parseTokens tokens d

/-- The clauses of one statement text. -/
def parse (p : Parser Hook) (sql : String) : Except Error (List Clause) :=
  let parsed := p.parseInto sql {}
  parsed.verdict.map fun _ => parsed.draft.clauses

end Parser
end DdlSchema
