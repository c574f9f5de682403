import DdlSchema.Graph.Reserved
import DdlSchema.Token.Basic

/-! Nodes of a matcher graph: what they accept and how messages name it. -/
namespace DdlSchema

inductive NodeKind where
  /-- Accepts what one of its successors accepts. -/
  | idle
  /-- Accepts the end of the tokens. -/
  | finish
  | exactWord (word : String)
  | exactPunctuation (char : Char)
  | multiWord (words : List String)
  /-- Accepts delimited identifiers, and words that are not reserved. -/
  | identifier
  | integer
  | string
deriving DecidableEq, Repr, Inhabited

namespace NodeKind

def consumes : NodeKind → Bool
  | idle | finish => false
  | _ => true

/-- The test that a consuming kind puts to a token. -/
def accepts (kind : NodeKind) (token : TokenKind) (reserved : ReservedWords) : Bool :=
  match kind, token with
  | exactWord word, .word text => Text.sameWord word text
  | exactPunctuation c, .punctuation d => c == d
  | multiWord words, .word text => words.any (Text.sameWord · text)
  | identifier, .word text => !reserved.contains text
  | identifier, .identifier text delimited => delimited || !reserved.contains text
  | integer, .integer _ => true
  | string, .string _ => true
  | _, _ => false

/-- What the kind accepts, for messages. -/
def expected : NodeKind → List String
  | idle => []
  | finish => ["end of input"]
  | exactWord word => [s!"'{word}'"]
  | exactPunctuation c => [s!"'{c}'"]
  | multiWord words => words.map fun word => s!"'{word}'"
  | identifier => ["identifier"]
  | integer => ["integer"]
  | string => ["string"]

def text : NodeKind → String
  | idle => "ε"
  | finish => "END"
  | exactWord word => word
  | exactPunctuation c => s!"'{c}'"
  | multiWord words => "|".intercalate words
  | identifier => "(identifier)"
  | integer => "(integer)"
  | string => "(string)"

end NodeKind

/-- A node with the nodes that may follow it, each once. -/
structure Node (Hook : Type) where
  kind : NodeKind
  name : Option String := none
  /-- Fired right after the node is entered. -/
  hook : Option Hook := none
  successors : List Nat := []
deriving DecidableEq, Repr

instance {Hook : Type} : Inhabited (Node Hook) := ⟨⟨.idle, none, none, []⟩⟩

end DdlSchema
