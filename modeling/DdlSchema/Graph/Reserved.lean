import DdlSchema.Text.Fold

/-! Reserved words: a set of texts without regard to the case of ASCII letters. -/
namespace DdlSchema

/-- Lower-case words in ascending order, each once. -/
structure ReservedWords where
  words : List String
deriving DecidableEq, Repr, Inhabited

namespace ReservedWords

def insert (word : String) : List String → List String
  | [] => [word]
  | w :: ws =>
    if word < w then word :: w :: ws
    else if word = w then w :: ws
    else w :: insert word ws

@[simp] theorem mem_insert {word x : String} {ws : List String} :
    x ∈ insert word ws ↔ x = word ∨ x ∈ ws := by
  induction ws with
  | nil => simp [insert]
  | cons w ws ih => grind [insert]

def ofList (words : List String) : ReservedWords :=
  ⟨words.foldr (fun word ws => insert (Text.lower word) ws) []⟩

def contains (r : ReservedWords) (word : String) : Bool := r.words.contains (Text.lower word)

theorem mem_words_ofList {words : List String} {x : String} :
    x ∈ (ofList words).words ↔ ∃ word ∈ words, Text.lower word = x := by
  simp only [ofList]
  induction words with
  | nil => simp
  | cons word words ih => simp [ih, eq_comm]

/-- A word is reserved when the list holds it in any case. -/
@[simp] theorem contains_ofList {words : List String} {word : String} :
    (ofList words).contains word = true ↔ ∃ w ∈ words, Text.lower w = Text.lower word := by
  simp [contains, mem_words_ofList]

end ReservedWords
end DdlSchema
