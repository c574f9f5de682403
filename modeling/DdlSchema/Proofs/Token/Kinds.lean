import DdlSchema.Token.Lexer

/-! The kinds of the tokens of a text, wherever it stands, and how they come from its pieces: blanks,
words, punctuation, integers and quoted runs, each in front of a text that lets it end. -/
namespace DdlSchema
namespace Lexer

attribute [local irreducible] lexeme

/-- The kinds of the tokens, or none where the text is refused. -/
def kinds (cfg : LexerConfig) (cs : List Char) : Option (List TokenKind) :=
  match cs with
  | [] => some []
  | c :: cs =>
    match _h : lexeme cfg (c :: cs) with
    | some (.ok l) => (kinds cfg l.rest).map (l.kind.toList ++ ·)
    | _ => none
termination_by cs.length
decreasing_by exact (lexeme_splits _h).length_lt

variable {cfg : LexerConfig}

@[simp] theorem kinds_nil : kinds cfg [] = some [] := by rw [kinds]

theorem kinds_of_lexeme {cs : List Char} {l : Lexeme} (h : lexeme cfg cs = some (.ok l)) :
    kinds cfg cs = (kinds cfg l.rest).map (l.kind.toList ++ ·) := by
  cases cs with
  | nil => exact absurd (List.append_eq_nil_iff.1 (lexeme_splits h).1).1 (lexeme_splits h).2
  | cons c cs =>
    rw [kinds]
    split
    · rename_i l' h'
      rw [h] at h'
      cases h'
      rfl
    · rename_i h'
      exact absurd h (h' l)

/-- Where a text stands changes the spans of its tokens only. -/
theorem tokens_kinds (cfg : LexerConfig) (p : Place) (cs : List Char) :
    (tokens cfg p cs).toOption.map (List.map Token.kind) = kinds cfg cs := by
  fun_induction kinds cfg cs generalizing p with
  | case1 =>
    rw [tokens_nil]
    rfl
  | case2 c cs l h ih =>
    rw [tokens_cons, h, ← ih (p.after l.taken)]
    dsimp only
    cases tokens cfg (p.after l.taken) l.rest with
    | error e => rfl
    | ok ts => cases l.kind <;> rfl
  | case3 c cs h =>
    rw [tokens_cons]
    split
    · rfl
    · rfl
    · rename_i l hl
      exact (h l hl).elim

end Lexer
end DdlSchema
