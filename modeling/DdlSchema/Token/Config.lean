import DdlSchema.Text.Blank

/-! What dialects settle about tokens: their identifier delimiters, punctuation and comments. -/
namespace DdlSchema

/-- Quotes around identifiers. -/
inductive Delimiter where
  | brackets
  | doubleQuotes
  | backticks
deriving DecidableEq, Repr, Inhabited

namespace Delimiter

def opening : Delimiter → Char
  | brackets => '['
  | doubleQuotes => '"'
  | backticks => '`'

def closing : Delimiter → Char
  | brackets => ']'
  | doubleQuotes => '"'
  | backticks => '`'

/-- Whether the closing character, written twice, stands for itself. -/
def doubles : Delimiter → Bool
  | brackets => false
  | doubleQuotes => true
  | backticks => true

end Delimiter

structure LexerConfig where
  delimiters : List Delimiter := [.doubleQuotes]
  punctuation : List Char := ['(', ')', ',']
  comments : Bool := true
deriving DecidableEq, Repr, Inhabited

namespace LexerConfig

def isPunctuation (cfg : LexerConfig) (c : Char) : Bool := cfg.punctuation.contains c

/-- The first delimiter that `c` opens. -/
def delimiter? (cfg : LexerConfig) (c : Char) : Option Delimiter :=
  cfg.delimiters.find? (·.opening == c)

/-- Words, integers, strings and identifiers end before a blank, punctuation or the end. -/
def endsRun (cfg : LexerConfig) : List Char → Bool
  | [] => true
  | c :: _ => Text.isBlank c || cfg.isPunctuation c

end LexerConfig
end DdlSchema
