import DdlSchema.Proofs.Token.Lexeme

/-! Trivia: blanks and whole comments. They add no tokens, whatever stands behind them. -/
namespace DdlSchema
namespace Lexer

/-- A whole comment: up to the newline of its line, which belongs to it, or up to the first end mark
behind its opening. -/
inductive IsComment : List Char → Prop
  | line {body : List Char} (hbody : '\n' ∉ body) : IsComment ('-' :: '-' :: (body ++ ['\n']))
  | block {body : List Char} (hbody : ¬['*', '/'] <:+: body ++ ['*']) :
      IsComment ('/' :: '*' :: (body ++ ['*', '/']))

/-- White space, control characters and, where the settings know them, whole comments. -/
inductive IsTrivia (cfg : LexerConfig) : List Char → Prop
  | nil : IsTrivia cfg []
  | blank {b : Char} {cs : List Char} (hb : Text.isBlank b = true) (hcs : IsTrivia cfg cs) :
      IsTrivia cfg (b :: cs)
  | comment {c cs : List Char} (hcfg : cfg.comments = true) (hc : IsComment c)
      (hcs : IsTrivia cfg cs) : IsTrivia cfg (c ++ cs)

variable {cfg : LexerConfig}

theorem IsTrivia.blanks {bs cs : List Char} (hbs : ∀ b ∈ bs, Text.isBlank b = true)
    (hcs : IsTrivia cfg cs) : IsTrivia cfg (bs ++ cs) := by
  induction bs with
  | nil => exact hcs
  | cons b bs ih =>
    exact .blank (hbs b List.mem_cons_self) (ih fun c hc => hbs c (List.mem_cons_of_mem b hc))

section Kinds

attribute [local irreducible] lexeme

theorem kinds_comment (hcfg : cfg.comments = true) {c : List Char} (hc : IsComment c)
    (rest : List Char) : kinds cfg (c ++ rest) = kinds cfg rest := by
  cases hc with
  | @line body hbody =>
    have hpiece : Piece cfg none ('-' :: '-' :: body) ('\n' :: rest) :=
      .lineComment hcfg hbody (by simp)
    have hkinds := kinds_of_lexeme (lexeme_of_trivia hpiece)
    rw [kinds_blank (by decide)] at hkinds
    simpa using hkinds
  | @block body hbody =>
    have hpiece : Piece cfg none ('/' :: '*' :: (body ++ ['*', '/'])) rest :=
      .blockComment rest hcfg (blockComment_of_body hbody [])
    have hkinds := kinds_of_lexeme (lexeme_of_trivia hpiece)
    simpa using hkinds

/-- Trivia in front of a text adds nothing. -/
theorem kinds_trivia {cs : List Char} (h : IsTrivia cfg cs) (rest : List Char) :
    kinds cfg (cs ++ rest) = kinds cfg rest := by
  induction h with
  | nil => rfl
  | blank hb _ ih => rw [List.cons_append, kinds_blank hb, ih]
  | comment hcfg hc _ ih => rw [List.append_assoc, kinds_comment hcfg hc, ih]

end Kinds

end Lexer
end DdlSchema
