import DdlSchema.Text.Extent

/-! Tokens of grammar texts. -/
namespace DdlSchema

inductive GrammarError where
  | unexpectedToken (found : String) (extent : Extent)
  | unexpectedEnd (extent : Extent)
  | unbalancedParen (extent : Extent)
  | unknownHead (head : String) (extent : Extent)
  | misplacedValues (head : String) (extent : Extent)
  | emptyAlternatives (extent : Extent)
  | trailingForm (extent : Extent)
  | emptyGrammar
  | invalidString (extent : Extent)
deriving DecidableEq, Repr

namespace GrammarError

def message : GrammarError → String
  | unexpectedToken found _ => s!"unexpected {found} in grammar"
  | unexpectedEnd _ => "grammar ends in the middle of a form"
  | unbalancedParen _ => "unbalanced parenthesis in grammar"
  | unknownHead head _ => s!"unknown node head `{head}`"
  | misplacedValues head _ => s!"`:values` is only allowed on MULTI-WORD, not on {head}"
  | emptyAlternatives _ => "MULTI-WORD needs at least one value where it is first defined"
  | trailingForm _ => "grammar must contain exactly one top-level form"
  | emptyGrammar => "grammar is empty"
  | invalidString _ => "invalid string literal in grammar"

/-- The place of an error in the grammar text. -/
def extent? : GrammarError → Option Extent
  | emptyGrammar => none
  | unexpectedToken _ e | unexpectedEnd e | unbalancedParen e | unknownHead _ e
  | misplacedValues _ e | emptyAlternatives e | trailingForm e | invalidString e => some e

end GrammarError

namespace Mold

inductive TokenKind where
  | opening
  | closing
  | string
  | keyword
  | symbol
deriving DecidableEq, Repr

structure Token where
  kind : TokenKind
  text : List Char
  extent : Extent
deriving DecidableEq, Repr

namespace Token

/-- The error at a token that cannot stand where it does. -/
def unexpected (t : Token) : GrammarError := .unexpectedToken s!"`{String.ofList t.text}`" t.extent

end Token

/-- A token, or trivia where there is no kind, with its characters and those behind it. -/
structure Lexeme where
  kind : Option TokenKind
  taken : List Char
  rest : List Char
deriving Repr

/-- The characters of a string behind its opening quote: up to the closing one with the rest, or
up to where it cannot go on. A backslash takes any next character but a newline. -/
def stringRun : List Char → Except (List Char) (List Char × List Char)
  | [] => .error []
  | '"' :: cs => .ok (['"'], cs)
  | '\\' :: c :: cs =>
    if c = '\n' then .error ['\\']
    else match stringRun cs with
      | .ok (body, rest) => .ok ('\\' :: c :: body, rest)
      | .error bad => .error ('\\' :: c :: bad)
  | c :: cs =>
    match stringRun cs with
    | .ok (body, rest) => .ok (c :: body, rest)
    | .error bad => .error (c :: bad)

def isSpace (c : Char) : Bool := c == ' ' || c == '\t' || c == '\r'

def continuesKeyword (c : Char) : Bool := c.isAlphanum || c == '-'

def startsSymbol (c : Char) : Bool := c.isAlpha || c == '_'

def continuesSymbol (c : Char) : Bool := c.isAlphanum || c == '_' || c == '-'

/-- The lexeme that begins with `c`, or the characters that are none. -/
def lexeme (c : Char) (cs : List Char) : Except (List Char) Lexeme :=
  if c = '(' then .ok ⟨some .opening, [c], cs⟩
  else if c = ')' then .ok ⟨some .closing, [c], cs⟩
  else if c = '\n' then .ok ⟨none, [c], cs⟩
  else if isSpace c then .ok ⟨none, c :: cs.takeWhile isSpace, cs.dropWhile isSpace⟩
  else if c = ';' then
    .ok ⟨none, c :: cs.takeWhile (· != '\n'), cs.dropWhile (· != '\n')⟩
  else if c = '"' then
    match stringRun cs with
    | .ok (body, rest) => .ok ⟨some .string, c :: body, rest⟩
    | .error bad => .error (c :: bad)
  else if c = ':' && (cs.head?.any Char.isAlpha) then
    .ok ⟨some .keyword, c :: cs.takeWhile continuesKeyword, cs.dropWhile continuesKeyword⟩
  else if startsSymbol c then
    .ok ⟨some .symbol, c :: cs.takeWhile continuesSymbol, cs.dropWhile continuesSymbol⟩
  else .error [c]

theorem stringRun_append {cs body rest : List Char} (h : stringRun cs = .ok (body, rest)) :
    body ++ rest = cs := by
  fun_induction stringRun cs generalizing body rest <;> simp_all <;> grind

/-- Every lexeme takes at least the character it begins with. -/
theorem lexeme_append {c : Char} {cs : List Char} {l : Lexeme} (h : lexeme c cs = .ok l) :
    ∃ more, l.taken = c :: more ∧ more ++ l.rest = cs := by
  unfold lexeme at h
  repeat' split at h
  all_goals first
    | (simp at h; done)
    | (obtain rfl : _ = l := by simpa using h
       simp)
  exact stringRun_append (by assumption)

/-- The error at characters that are no lexeme: a string that does not close, or anything else. -/
def refuse (start : Nat) (bad : List Char) : GrammarError :=
  let extent := ⟨start, start + byteSize bad⟩
  if bad.head? = some '"' then .invalidString extent
  else .unexpectedToken s!"`{String.ofList bad}`" extent

/-- The tokens of a grammar text whose first character is at byte `start`. -/
def tokens (start : Nat) (cs : List Char) : Except GrammarError (List Token) :=
  match cs with
  | [] => .ok []
  | c :: cs =>
    match _h : lexeme c cs with
    | .error bad => .error (refuse start bad)
    | .ok l =>
      let stop := start + byteSize l.taken
      match tokens stop l.rest with
      | .error e => .error e
      | .ok ts =>
        match l.kind with
        | none => .ok ts
        | some kind => .ok (⟨kind, l.taken, ⟨start, stop⟩⟩ :: ts)
termination_by cs.length
decreasing_by
  obtain ⟨more, -, h⟩ := lexeme_append _h
  rw [← h, List.length_cons, List.length_append]
  omega

end Mold
end DdlSchema
