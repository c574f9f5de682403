import DdlSchema.Mold.Basic
import DdlSchema.Mold.Token

/-! Reading a mold tree off a grammar text:
`form = "(" head [name] [":values" "(" string+ ")"] form* ")"`. -/
namespace DdlSchema
namespace Mold

/-- The contents of a string token behind its opening quote. A backslash stands before a quote or
a backslash only. -/
def unescape? : List Char → Option (List Char)
  | ['"'] => some []
  | '\\' :: c :: cs =>
    if c = '"' || c = '\\' then (unescape? cs).map (c :: ·) else none
  | c :: cs => (unescape? cs).map (c :: ·)
  | [] => none

/-- The text of a string token, which may not be empty. -/
def Token.string (t : Token) : Except GrammarError String :=
  match unescape? (t.text.drop 1) with
  | none | some [] => .error (.invalidString t.extent)
  | some cs => .ok (.ofList cs)

def Token.head (t : Token) : Except GrammarError MoldKind :=
  match t.kind with
  | .string => t.string.map .literal
  | .symbol =>
    match MoldKind.ofHead? (.ofList t.text) with
    | some kind => .ok kind
    | none => .error (.unknownHead (.ofList t.text) t.extent)
  | _ => .error t.unexpected

/-- What a form says about itself, before its children. -/
structure Header where
  opening : Extent
  kind : MoldKind
  name : Option String
deriving Repr

/-- The end of a grammar text of `size` bytes, where a token is missing. -/
def ends (size : Nat) : GrammarError := .unexpectedEnd ⟨size, size⟩

/-- Strings up to a closing parenthesis. -/
def valueList (size : Nat) : List Token → Except GrammarError (List String × List Token)
  | [] => .error (ends size)
  | t :: ts =>
    match t.kind with
    | .string => do
      let text ← t.string
      let (texts, rest) ← valueList size ts
      .ok (text :: texts, rest)
    | .closing => .ok ([], ts)
    | _ => .error t.unexpected

/-- The strings behind the token `keyword`, at least one. -/
def values (size : Nat) (keyword : Token) :
    List Token → Except GrammarError (List String × List Token)
  | [] => .error (ends size)
  | t :: ts =>
    if t.kind = .opening then do
      let (texts, rest) ← valueList size ts
      if texts.isEmpty then .error (.emptyAlternatives keyword.extent) else .ok (texts, rest)
    else .error t.unexpected

/-- The name of a form, where a symbol stands in its place. -/
def readName : List Token → Option String × List Token
  | [] => (none, [])
  | t :: ts => if t.kind = .symbol then (some (.ofList t.text), ts) else (none, t :: ts)

/-- The kind of a form with the values that a keyword adds to it. -/
def readValues (size : Nat) (kind : MoldKind) :
    List Token → Except GrammarError (MoldKind × List Token)
  | [] => .ok (kind, [])
  | t :: ts =>
    if t.kind = .keyword then
      if t.text = ":values".toList then
        match kind with
        | .multiWord _ => do
          let (texts, rest) ← values size t ts
          .ok (.multiWord texts, rest)
        | _ => .error (.misplacedValues kind.head t.extent)
      else .error t.unexpected
    else .ok (kind, t :: ts)

/-- A form up to its children. -/
def header (size : Nat) : List Token → Except GrammarError (Header × List Token)
  | [] => .error (ends size)
  | t :: ts =>
    match t.kind with
    | .opening =>
      match ts with
      | [] => .error (ends size)
      | head :: ts => do
        let kind ← head.head
        let (name, ts) := readName ts
        let (kind, ts) ← readValues size kind ts
        if kind = .multiWord [] ∧ name = none then .error (.emptyAlternatives head.extent)
        else .ok (⟨t.extent, kind, name⟩, ts)
    | .closing => .error (.unbalancedParen t.extent)
    | _ => .error t.unexpected

/-- Ends a form behind its children. -/
def Header.close (h : Header) (children : List Mold) :
    List Token → Except GrammarError (Mold × List Token)
  | [] => .error (.unbalancedParen h.opening)
  | t :: ts =>
    if t.kind = .closing then
      .ok (⟨h.kind, h.name, children, ⟨h.opening.start, t.extent.stop⟩⟩, ts)
    else .error t.unexpected

/-- As many forms as stand at the front, at most `fuel` in one row and depth. -/
def forms (size : Nat) : Nat → List Token → Except GrammarError (List Mold × List Token)
  | 0, ts => .ok ([], ts)
  | fuel + 1, ts =>
    if ts.head?.any (·.kind = .opening) then do
      let (h, ts) ← header size ts
      let (children, ts) ← forms size fuel ts
      let (m, ts) ← h.close children ts
      let (ms, ts) ← forms size fuel ts
      .ok (m :: ms, ts)
    else .ok ([], ts)

/-- The form at the front. It holds no more forms than tokens. -/
def form (size : Nat) (ts : List Token) : Except GrammarError (Mold × List Token) := do
  let (h, rest) ← header size ts
  let (children, rest) ← forms size ts.length rest
  h.close children rest

/-- The first mold that refers to a name whose values no mold before it lists. -/
def undefined? (names : List String) : List Mold → Option Mold
  | [] => none
  | m :: ms =>
    match m.kind, m.name with
    | .multiWord [], some name => if name ∈ names then undefined? names ms else some m
    | .multiWord _, some name => undefined? (name :: names) ms
    | _, _ => undefined? names ms

/-- The one form of a token list. -/
def ofTokens (size : Nat) (ts : List Token) : Except GrammarError Mold := do
  if ts.isEmpty then throw .emptyGrammar
  let (root, rest) ← form size ts
  match rest with
  | [] => pure ()
  | t :: _ =>
    match t.kind with
    | .opening => throw (.trailingForm t.extent)
    | .closing => throw (.unbalancedParen t.extent)
    | _ => throw t.unexpected
  match undefined? [] root.preorder with
  | none => pure root
  | some m => throw (.emptyAlternatives m.extent)

/-- The mold tree of a grammar text given by its characters. -/
def read (cs : List Char) : Except GrammarError Mold := do
  ofTokens (byteSize cs) (← tokens 0 cs)

/-- The mold tree of a grammar text. -/
def compile (source : String) : Except GrammarError Mold := read source.toList

end Mold
end DdlSchema
