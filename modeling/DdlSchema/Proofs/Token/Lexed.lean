import DdlSchema.Proofs.Token.Lexeme

/-! What can be a token of a text: words and identifiers are never empty, and integers have 64 bits. -/
namespace DdlSchema

def TokenKind.IsLexed : TokenKind → Prop
  | word s => s ≠ ""
  | integer n => Lexer.IsInt64 n
  | identifier s _ => s ≠ ""
  | _ => True

namespace Lexer

variable {cfg : LexerConfig}

theorem ofList_ne_empty {cs : List Char} (h : cs ≠ []) : String.ofList cs ≠ "" := by
  intro hempty
  have hlist := congrArg String.toList hempty
  rw [String.toList_ofList] at hlist
  exact h hlist

theorem isInt64_of_int64? {sgn ds : List Char} {n : Int} (h : int64? sgn ds = some n) :
    IsInt64 n := by
  unfold int64? at h
  have hpos : 0 < int64Limit := by decide
  unfold IsInt64
  dsimp only at h
  split at h
  · split at h
    · obtain rfl := Option.some.inj h
      omega
    · cases h
  · split at h
    · obtain rfl := Option.some.inj h
      omega
    · cases h

theorem isLexed_of_piece {kind : Option TokenKind} {taken rest : List Char}
    (h : Piece cfg kind taken rest) : ∀ k ∈ kind, k.IsLexed := by
  intro k hk
  cases h with
  | blanks => cases hk
  | lineComment => cases hk
  | blockComment => cases hk
  | word =>
    obtain rfl := Option.some.inj hk
    exact ofList_ne_empty (List.cons_ne_nil _ _)
  | punctuation =>
    obtain rfl := Option.some.inj hk
    trivial
  | integer _ _ _ hvalue =>
    obtain rfl := Option.some.inj hk
    exact isInt64_of_int64? hvalue
  | string =>
    obtain rfl := Option.some.inj hk
    trivial
  | identifier _ hne =>
    obtain rfl := Option.some.inj hk
    exact ofList_ne_empty hne

theorem isLexed_of_kinds {cs : List Char} {ks : List TokenKind} (h : kinds cfg cs = some ks) :
    ∀ k ∈ ks, k.IsLexed := by
  fun_induction kinds cfg cs generalizing ks with
  | case1 =>
    obtain rfl := Option.some.inj h
    intro k hk
    cases hk
  | case2 c cs l hl ih =>
    obtain ⟨more, hmore, rfl⟩ := Option.map_eq_some_iff.1 h
    intro k hk
    rcases List.mem_append.1 hk with hk | hk
    · exact isLexed_of_piece (piece_of_lexeme hl) k (Option.mem_toList.1 hk)
    · exact ih hmore k hk
  | case3 c cs hl => cases h

end Lexer
end DdlSchema
