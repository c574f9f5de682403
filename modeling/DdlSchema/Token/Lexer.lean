import DdlSchema.Text.Escape
import DdlSchema.Token.Basic
import DdlSchema.Token.Config

/-! Tokens of a text. At every place the rules for trivia, words, punctuation, integers, strings and
identifiers are tried in this order, and the first that claims the place wins. -/
namespace DdlSchema

inductive LexFault where
  | unexpectedCharacter (char : Char)
  | unterminatedString
  | unterminatedIdentifier
  | emptyIdentifier
  | unterminatedComment
  | integerOverflow (text : String)
deriving DecidableEq, Repr

structure LexError where
  fault : LexFault
  span : Span
deriving DecidableEq, Repr

namespace LexError

def message (e : LexError) : String :=
  let place := e.span.position.text
  match e.fault with
  | .unexpectedCharacter c => s!"unexpected character {Text.quotedChar c} at {place}"
  | .unterminatedString => s!"unterminated string literal starting at {place}"
  | .unterminatedIdentifier => s!"unterminated delimited identifier starting at {place}"
  | .emptyIdentifier => s!"empty delimited identifier at {place}"
  | .unterminatedComment => s!"unterminated block comment starting at {place}"
  | .integerOverflow text => s!"integer {text} at {place} does not fit in 64 bits"

end LexError

namespace Lexer

/-- A token, or trivia where there is no kind, with its characters and those behind it. -/
structure Lexeme where
  kind : Option TokenKind
  taken : List Char
  rest : List Char
deriving Repr

/-- Characters that cannot be a lexeme, and why. -/
structure Refusal where
  fault : LexFault
  taken : List Char
deriving Repr

/-- A rule abstains, or claims the front of a text as a lexeme or as a fault. -/
abbrev Rule := LexerConfig → List Char → Option (Except Refusal Lexeme)

/-- Claims a lexeme only where a run may end. -/
def closed (cfg : LexerConfig) (l : Lexeme) : Option (Except Refusal Lexeme) :=
  if cfg.endsRun l.rest then some (.ok l) else none

/-- A block comment behind its opening: the characters up to its end, and the rest. -/
def blockComment : List Char → Option (List Char × List Char)
  | [] => none
  | '*' :: '/' :: cs => some (['*', '/'], cs)
  | c :: cs => (blockComment cs).map fun (body, rest) => (c :: body, rest)

/-- The newline behind a line comment is no part of it. -/
def comment : List Char → Option (Except Refusal Lexeme)
  | '-' :: '-' :: cs =>
    some (.ok ⟨none, '-' :: '-' :: cs.takeWhile (· != '\n'), cs.dropWhile (· != '\n')⟩)
  | '/' :: '*' :: cs =>
    match blockComment cs with
    | some (body, rest) => some (.ok ⟨none, '/' :: '*' :: body, rest⟩)
    | none => some (.error ⟨.unterminatedComment, '/' :: '*' :: cs⟩)
  | _ => none

def trivia : Rule := fun cfg cs =>
  match cs.takeWhile Text.isBlank with
  | [] => if cfg.comments then comment cs else none
  | b :: bs => some (.ok ⟨none, b :: bs, cs.dropWhile Text.isBlank⟩)

def startsWord (c : Char) : Bool := c.isAlpha || c == '_'

def continuesWord (c : Char) : Bool := c.isAlphanum || c == '_'

def word : Rule := fun cfg cs =>
  match cs with
  | [] => none
  | c :: cs =>
    if startsWord c then
      let taken := c :: cs.takeWhile continuesWord
      closed cfg ⟨some (.word (.ofList taken)), taken, cs.dropWhile continuesWord⟩
    else none

def punctuation : Rule := fun cfg cs =>
  match cs with
  | [] => none
  | c :: cs => if cfg.isPunctuation c then some (.ok ⟨some (.punctuation c), [c], cs⟩) else none

def digitsValue (ds : List Char) : Nat := ds.foldl (fun n d => 10 * n + (d.toNat - 48)) 0

/-- A sign, if there is one, and the rest. -/
def sign : List Char → List Char × List Char
  | '+' :: cs => (['+'], cs)
  | '-' :: cs => (['-'], cs)
  | cs => ([], cs)

/-- How far down 64 bits reach. -/
def int64Limit : Nat := 0x8000000000000000

/-- The value of signed digits where it fits in 64 bits. -/
def int64? (sign digits : List Char) : Option Int :=
  let n := digitsValue digits
  if sign = ['-'] then if n ≤ int64Limit then some (-(n : Int)) else none
  else if n < int64Limit then some (n : Int) else none

def integer : Rule := fun cfg cs =>
  let (sgn, ds) := sign cs
  let digits := ds.takeWhile Char.isDigit
  let rest := ds.dropWhile Char.isDigit
  if digits.isEmpty then none
  else if cfg.endsRun rest then
    match int64? sgn digits with
    | some value => some (.ok ⟨some (.integer value), sgn ++ digits, rest⟩)
    | none => some (.error ⟨.integerOverflow (.ofList (sgn ++ digits)), sgn ++ digits⟩)
  else none

/-- What a quoted run holds, its characters with the closing one, and the rest. -/
structure QuotedRun where
  value : List Char
  taken : List Char
  rest : List Char
deriving Repr

namespace QuotedRun

/-- Puts in front a character of the value, written as `raw`. -/
def push (c : Char) (raw : List Char) (q : QuotedRun) : QuotedRun :=
  ⟨c :: q.value, raw ++ q.taken, q.rest⟩

/-- The run that begins behind its opening character. Where the closing character `doubles`, two of
them stand for one. -/
def read (close : Char) (doubles : Bool) : List Char → Option QuotedRun
  | [] => none
  | [c] => if c = close then some ⟨[], [c], []⟩ else none
  | c :: d :: cs =>
    if c = close then
      if doubles && d == close then (read close doubles cs).map (push c [c, d])
      else some ⟨[], [c], d :: cs⟩
    else (read close doubles (d :: cs)).map (push c [c])

end QuotedRun

def string : Rule := fun cfg cs =>
  match cs with
  | '\'' :: cs =>
    match QuotedRun.read '\'' true cs with
    | some q => closed cfg ⟨some (.string (.ofList q.value)), '\'' :: q.taken, q.rest⟩
    | none => some (.error ⟨.unterminatedString, '\'' :: cs⟩)
  | _ => none

def identifier : Rule := fun cfg cs =>
  match cs with
  | [] => none
  | c :: cs =>
    match cfg.delimiter? c with
    | none => none
    | some d =>
      match QuotedRun.read d.closing d.doubles cs with
      | none => some (.error ⟨.unterminatedIdentifier, c :: cs⟩)
      | some q =>
        if q.value.isEmpty then some (.error ⟨.emptyIdentifier, c :: q.taken⟩)
        else closed cfg ⟨some (.identifier (.ofList q.value) true), c :: q.taken, q.rest⟩

def rules : List Rule := [trivia, word, punctuation, integer, string, identifier]

/-- The lexeme or fault at the front of a text; none where no rule claims it. -/
def lexeme : Rule := fun cfg cs => rules.findSome? fun rule => rule cfg cs

/-- Whether a lexeme takes a first part of the text, and at least one character of it. -/
def Lexeme.Splits (l : Lexeme) (cs : List Char) : Prop := l.taken ++ l.rest = cs ∧ l.taken ≠ []

theorem Lexeme.Splits.length_lt {l : Lexeme} {cs : List Char} (h : l.Splits cs) :
    l.rest.length < cs.length := by
  have := List.length_pos_iff.2 h.2
  rw [← h.1, List.length_append]
  omega

theorem closed_eq_some {cfg : LexerConfig} {l m : Lexeme} :
    closed cfg l = some (.ok m) ↔ l = m ∧ cfg.endsRun l.rest = true := by
  simp [closed, and_comm]

theorem blockComment_append {cs body rest : List Char} (h : blockComment cs = some (body, rest)) :
    body ++ rest = cs := by
  fun_induction blockComment cs generalizing body rest with
  | case1 => simp at h
  | case2 cs =>
    obtain ⟨rfl, rfl⟩ : ['*', '/'] = body ∧ cs = rest := by simpa using h
    rfl
  | case3 c cs _ ih =>
    simp only [Option.map_eq_some_iff, Prod.exists, Prod.mk.injEq] at h
    obtain ⟨b, r, hb, rfl, rfl⟩ := h
    simp [ih hb]

theorem QuotedRun.read_append {close : Char} {doubles : Bool} {cs : List Char} {q : QuotedRun}
    (h : read close doubles cs = some q) : q.taken ++ q.rest = cs := by
  fun_induction read close doubles cs generalizing q with
  | case1 => simp at h
  | case2 => simp_all; simp [← h]
  | case3 => simp at h
  | case4 c cs _ ih =>
    obtain ⟨r, hr, rfl⟩ := Option.map_eq_some_iff.1 h
    simp_all [push, ih hr]
  | case5 => simp_all; simp [← h]
  | case6 c d cs _ ih =>
    obtain ⟨r, hr, rfl⟩ := Option.map_eq_some_iff.1 h
    simp [push, ih hr]

theorem sign_append (cs : List Char) : (sign cs).1 ++ (sign cs).2 = cs := by
  unfold sign; split <;> rfl

theorem comment_splits {cs : List Char} {l : Lexeme} (h : comment cs = some (.ok l)) :
    l.Splits cs := by
  unfold comment at h
  split at h
  · obtain rfl : _ = l := by simpa using h
    simp [Lexeme.Splits]
  · split at h
    · obtain rfl : _ = l := by simpa using h
      simp [Lexeme.Splits, blockComment_append (by assumption)]
    · simp at h
  · simp at h

theorem trivia_splits {cfg : LexerConfig} {cs : List Char} {l : Lexeme}
    (h : trivia cfg cs = some (.ok l)) : l.Splits cs := by
  unfold trivia at h
  split at h
  · split at h
    · exact comment_splits h
    · simp at h
  · rename_i b bs hb
    obtain rfl : _ = l := by simpa using h
    exact ⟨by rw [← hb]; exact List.takeWhile_append_dropWhile, by simp⟩

theorem word_splits {cfg : LexerConfig} {cs : List Char} {l : Lexeme}
    (h : word cfg cs = some (.ok l)) : l.Splits cs := by
  unfold word at h
  split at h
  · simp at h
  · split at h
    · obtain ⟨rfl, -⟩ := closed_eq_some.1 h
      simp [Lexeme.Splits]
    · simp at h

theorem punctuation_splits {cfg : LexerConfig} {cs : List Char} {l : Lexeme}
    (h : punctuation cfg cs = some (.ok l)) : l.Splits cs := by
  unfold punctuation at h
  split at h
  · simp at h
  · split at h
    · obtain rfl : _ = l := by simpa using h
      simp [Lexeme.Splits]
    · simp at h

theorem integer_splits {cfg : LexerConfig} {cs : List Char} {l : Lexeme}
    (h : integer cfg cs = some (.ok l)) : l.Splits cs := by
  have hs := sign_append cs
  unfold integer at h
  generalize sign cs = p at h hs
  obtain ⟨sgn, ds⟩ := p
  simp only at h hs
  split at h
  · simp at h
  · rename_i hd
    split at h
    · split at h
      · obtain rfl : _ = l := by simpa using h
        refine ⟨by simp [hs], fun hn => hd ?_⟩
        simp [(List.append_eq_nil_iff.1 hn).2]
      · simp at h
    · simp at h

theorem string_splits {cfg : LexerConfig} {cs : List Char} {l : Lexeme}
    (h : string cfg cs = some (.ok l)) : l.Splits cs := by
  unfold string at h
  split at h
  · split at h
    · obtain ⟨rfl, -⟩ := closed_eq_some.1 h
      simp [Lexeme.Splits, QuotedRun.read_append (by assumption)]
    · simp at h
  · simp at h

theorem identifier_splits {cfg : LexerConfig} {cs : List Char} {l : Lexeme}
    (h : identifier cfg cs = some (.ok l)) : l.Splits cs := by
  unfold identifier at h
  split at h
  · simp at h
  · split at h
    · simp at h
    · split at h
      · simp at h
      · split at h
        · simp at h
        · obtain ⟨rfl, -⟩ := closed_eq_some.1 h
          simp [Lexeme.Splits, QuotedRun.read_append (by assumption)]

/-- Every lexeme takes something off the front. -/
theorem lexeme_splits {cfg : LexerConfig} {cs : List Char} {l : Lexeme}
    (h : lexeme cfg cs = some (.ok l)) : l.Splits cs := by
  obtain ⟨rule, hr, h⟩ := List.exists_of_findSome?_eq_some h
  simp only [rules, List.mem_cons, List.not_mem_nil, or_false] at hr
  rcases hr with rfl | rfl | rfl | rfl | rfl | rfl
  · exact trivia_splits h
  · exact word_splits h
  · exact punctuation_splits h
  · exact integer_splits h
  · exact string_splits h
  · exact identifier_splits h

-- Otherwise the equations of `tokens` would look into the rules.
attribute [local irreducible] lexeme

/-- The tokens of a text that is read from `p` on. -/
def tokens (cfg : LexerConfig) (p : Place) (cs : List Char) : Except LexError (List Token) :=
  match cs with
  | [] => .ok []
  | c :: cs =>
    match _h : lexeme cfg (c :: cs) with
    | none => .error ⟨.unexpectedCharacter c, p.span [c]⟩
    | some (.error r) => .error ⟨r.fault, p.span r.taken⟩
    | some (.ok l) =>
      match tokens cfg (p.after l.taken) l.rest with
      | .error e => .error e
      | .ok ts =>
        match l.kind with
        | none => .ok ts
        | some kind => .ok (⟨kind, p.span l.taken⟩ :: ts)
termination_by cs.length
decreasing_by exact (lexeme_splits _h).length_lt

theorem tokens_nil (cfg : LexerConfig) (p : Place) : tokens cfg p [] = .ok [] := by rw [tokens]

theorem tokens_cons (cfg : LexerConfig) (p : Place) (c : Char) (cs : List Char) :
    tokens cfg p (c :: cs) =
      match lexeme cfg (c :: cs) with
      | none => .error ⟨.unexpectedCharacter c, p.span [c]⟩
      | some (.error r) => .error ⟨r.fault, p.span r.taken⟩
      | some (.ok l) =>
        match tokens cfg (p.after l.taken) l.rest with
        | .error e => .error e
        | .ok ts =>
          match l.kind with
          | none => .ok ts
          | some kind => .ok (⟨kind, p.span l.taken⟩ :: ts) := by
  rw [tokens]
  split <;> simp_all

end Lexer

/-- The tokens of a text. -/
def tokenize (cfg : LexerConfig) (source : String) : Except LexError (List Token) :=
  Lexer.tokens cfg .start source.toList

end DdlSchema
