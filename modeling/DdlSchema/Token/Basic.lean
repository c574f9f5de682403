import DdlSchema.Text.Extent

/-! Tokens of schema statements. -/
namespace DdlSchema

inductive TokenKind where
  /-- A bare run of letters, digits and underscores; the graph decides what it stands for. -/
  | word (text : String)
  | punctuation (char : Char)
  | integer (value : Int)
  /-- The contents of a string between its quotes. -/
  | string (text : String)
  | identifier (text : String) (delimited : Bool)
deriving DecidableEq, Repr, Inhabited

structure Token where
  kind : TokenKind
  span : Span
deriving DecidableEq, Repr, Inhabited

namespace TokenKind

/-- What the token stands for, without quotes. -/
def text : TokenKind → String
  | word text => text
  | punctuation c => c.toString
  | integer value => toString value
  | string text => text
  | identifier text _ => text

/-- The token as messages show it. -/
def describe : TokenKind → String
  | word text => s!"'{text}'"
  | punctuation c => s!"'{c}'"
  | integer value => s!"integer {value}"
  | string text => s!"string '{text}'"
  | identifier text _ => s!"identifier \"{text}\""

def integer? : TokenKind → Option Int
  | integer value => some value
  | _ => none

end TokenKind

namespace Token

def text (t : Token) : String := t.kind.text

def describe (t : Token) : String := t.kind.describe

end Token
end DdlSchema
