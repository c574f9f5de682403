import DdlSchema.Proofs.Script.Text
import DdlSchema.Proofs.Token.Separate

/-! Quoting is undone by the lexer: quoted names, strings and type names are single tokens, which have
the quoted text. The settings need no more than the quotes themselves. -/
namespace DdlSchema
namespace Script

open Lexer (Isolates endsRun_of_blank)

variable {cfg : LexerConfig} {d : Delimiter} {name : String} {rest : List Char}

section Tokens

theorem ne_of_blank (hrest : ∀ c ∈ rest.head?, Text.isBlank c = true) {close : Char}
    (hclose : Text.isBlank close = false) : ∀ c ∈ rest.head?, c ≠ close := by
  rintro c hc rfl
  rw [hrest c hc] at hclose
  cases hclose

theorem delimiter?_of_mem (hd : d ∈ cfg.delimiters) : cfg.delimiter? d.opening = some d := by
  have hinjective : ∀ e : Delimiter, e.opening = d.opening → e = d := by
    intro e
    cases d <;> cases e <;> decide
  cases he : cfg.delimiter? d.opening with
  | none => exact absurd (List.find?_eq_none.1 he d hd) (by simp)
  | some e => rw [hinjective e (Lexer.eq_opening_of_delimiter? he).symm]

theorem delimiterFor_cases (d : Delimiter) (name : String) :
    delimiterFor d name = d ∨ delimiterFor d name = .doubleQuotes := by
  unfold delimiterFor
  split
  · exact .inl rfl
  · exact .inr rfl

theorem toList_quote (d : Delimiter) (name : String) :
    (quote d name).toList = (delimiterFor d name).opening ::
      (Lexer.inside (delimiterFor d name) name.toList ++ [(delimiterFor d name).closing]) := by
  rw [quote, String.toList_ofList]
  rfl

/-- A quoted name is an identifier of that name. -/
theorem isolates_quote (hname : name ≠ "") (hd : delimiterFor d name ∈ cfg.delimiters)
    (hopening : cfg.isPunctuation (delimiterFor d name).opening = false) :
    Isolates cfg (quote d name) (.identifier name true) := by
  intro rest hrest
  have hne : name.toList ≠ [] := fun h => hname (String.toList_eq_nil_iff.1 h)
  have hclosing : Text.isBlank (delimiterFor d name).closing = false := by
    cases delimiterFor d name <;> decide
  have hidentifier := Lexer.identifier_eq (delimiter?_of_mem hd) hne (delimiterFor_holds d name)
    (fun _ => ne_of_blank hrest hclosing) (endsRun_of_blank cfg hrest)
  have hlexeme := Lexer.lexeme_of_identifier hopening hidentifier
  rw [String.ofList_toList] at hlexeme
  rw [toList_quote]
  simpa using hlexeme

/-- A quoted text is a string of that text. -/
theorem isolates_quoteString (hquote : cfg.isPunctuation '\'' = false) (text : String) :
    Isolates cfg (Sqlite.quoteString text) (.string text) := by
  intro rest hrest
  have hstring := Lexer.string_eq text.toList (ne_of_blank hrest (by decide))
    (endsRun_of_blank cfg hrest)
  have hlexeme := Lexer.lexeme_of_string hquote hstring
  rw [String.ofList_toList] at hlexeme
  rw [toList_quoteString]
  simpa using hlexeme

theorem isolates_word {c : Char} {w : List Char} (hname : name.toList = c :: w)
    (hc : Lexer.startsWord c = true) (hw : w.all Lexer.continuesWord = true) :
    Isolates cfg name (.word name) := by
  intro rest hrest
  have hword := Lexer.word_eq hc (List.all_eq_true.1 hw)
    (fun d hd => Lexer.continuesWord_of_isBlank (hrest d hd)) (endsRun_of_blank cfg hrest)
  have hlexeme := Lexer.lexeme_of_word hc hword
  have htext : String.ofList (c :: w) = name := by rw [← hname, String.ofList_toList]
  rw [htext] at hlexeme
  rw [hname]
  exact hlexeme

theorem tokenize_quote (hname : name ≠ "") (hd : d ∈ cfg.delimiters)
    (hquotes : .doubleQuotes ∈ cfg.delimiters) (hopening : cfg.isPunctuation d.opening = false)
    (hquote : cfg.isPunctuation Delimiter.doubleQuotes.opening = false) :
    ∃ span, tokenize cfg (quote d name) = .ok [⟨.identifier name true, span⟩] := by
  refine ⟨_, (isolates_quote hname ?_ ?_).tokenize_eq⟩
  · rcases delimiterFor_cases d name with h | h <;> rwa [h]
  · rcases delimiterFor_cases d name with h | h <;> rwa [h]

/-- Settings that know some quotes and the double ones, and nothing else. -/
def quoting (d : Delimiter) : LexerConfig :=
  { delimiters := [d, .doubleQuotes], punctuation := [] }

/-- No two names are quoted alike, since what was quoted can be read. -/
theorem quote_injective {a b : String} (ha : a ≠ "") (hb : b ≠ "") (h : quote d a = quote d b) :
    a = b := by
  have hread : ∀ name, name ≠ "" → ∃ span,
      tokenize (quoting d) (quote d name) = .ok [⟨.identifier name true, span⟩] := by
    intro name hname
    exact tokenize_quote hname (by simp [quoting]) (by simp [quoting]) rfl rfl
  obtain ⟨s, hs⟩ := hread a ha
  obtain ⟨t, ht⟩ := hread b hb
  rw [h, ht] at hs
  cases hs
  rfl

end Tokens

section Types

/-- A type name, quoted or not, is a token that can be an identifier. -/
theorem isolates_typeName (hd : d = .brackets ∨ d = .doubleQuotes) (hname : name ≠ "") :
    ∃ kind, Isolates Sqlite.lexer (typeName d name) kind ∧
      NodeKind.identifier.accepts kind Sqlite.parser.reserved = true ∧ kind.text = name := by
  by_cases hplain : isPlain name = true
  · rw [typeName, if_pos hplain]
    rw [isPlain, Bool.and_eq_true] at hplain
    obtain ⟨hword, hreserved⟩ := hplain
    refine ⟨.word name, ?_, hreserved, rfl⟩
    cases hcs : name.toList with
    | nil => exact absurd (String.toList_eq_nil_iff.1 hcs) hname
    | cons c cs =>
      rw [hcs, Bool.and_eq_true] at hword
      exact isolates_word hcs hword.1 hword.2
  · rw [typeName, if_neg hplain]
    have hread : delimiterFor d name ∈ Sqlite.lexer.delimiters ∧
        Sqlite.lexer.isPunctuation (delimiterFor d name).opening = false := by
      rcases delimiterFor_cases d name with h | h
      · rw [h]
        rcases hd with rfl | rfl <;> decide
      · rw [h]
        decide
    exact ⟨.identifier name true, isolates_quote hname hread.1 hread.2, rfl, rfl⟩

end Types

/-- A quoted name is one identifier of that name for all settings that know the quotes, so no two names
are quoted alike. A quoted string is one string of that text, and a type name is one token of that
text that can stand where the grammar has an identifier. -/
theorem tokenize_quoted :
    (∀ (d : Delimiter) (name : String) (cfg : LexerConfig), name ≠ "" → d ∈ cfg.delimiters →
      .doubleQuotes ∈ cfg.delimiters → cfg.isPunctuation d.opening = false →
      cfg.isPunctuation Delimiter.doubleQuotes.opening = false →
        ∃ span, tokenize cfg (quote d name) = .ok [⟨.identifier name true, span⟩]) ∧
    (∀ (d : Delimiter) (a b : String), a ≠ "" → b ≠ "" → quote d a = quote d b → a = b) ∧
    (∀ text : String, ∃ span,
      tokenize Sqlite.lexer (Sqlite.quoteString text) = .ok [⟨.string text, span⟩]) ∧
    ∀ (d : Delimiter) (name : String), d = .brackets ∨ d = .doubleQuotes → name ≠ "" →
      ∃ kind span, tokenize Sqlite.lexer (typeName d name) = .ok [⟨kind, span⟩] ∧
        NodeKind.identifier.accepts kind Sqlite.parser.reserved = true ∧ kind.text = name := by
  refine ⟨fun d name cfg => tokenize_quote, fun d a b => quote_injective, fun text => ?_,
    fun d name hd hname => ?_⟩
  · exact ⟨_, (isolates_quoteString (by decide) text).tokenize_eq⟩
  · obtain ⟨kind, hkind, haccepts, htext⟩ := isolates_typeName hd hname
    exact ⟨kind, _, hkind.tokenize_eq, haccepts, htext⟩

/-- Settings where the end of brackets is punctuation. -/
def closing : LexerConfig := { delimiters := [.brackets, .doubleQuotes], punctuation := [']'] }

/-- A name that brackets cannot hold, and a keyword in odd case as the name of a type. -/
theorem tokenize_quoted_closing :
    ("]\"" ≠ "" ∧ .brackets ∈ closing.delimiters ∧ .doubleQuotes ∈ closing.delimiters ∧
        closing.isPunctuation '[' = false ∧ closing.isPunctuation '"' = false) ∧
      (∃ span, tokenize closing "\"]\"\"\"" = .ok [⟨.identifier "]\"" true, span⟩]) ∧
      quote .brackets "a]" ≠ quote .brackets "a" ∧
      (∃ span, tokenize Sqlite.lexer "'it''s'''" = .ok [⟨.string "it's'", span⟩]) ∧
      ∃ kind span, tokenize Sqlite.lexer (typeName .brackets "tAbLe") = .ok [⟨kind, span⟩] ∧
        NodeKind.identifier.accepts kind Sqlite.parser.reserved = true ∧ kind.text = "tAbLe" := by
  have hcfg : "]\"" ≠ "" ∧ .brackets ∈ closing.delimiters ∧ .doubleQuotes ∈ closing.delimiters ∧
      closing.isPunctuation '[' = false ∧ closing.isPunctuation '"' = false := by decide
  obtain ⟨hquote, hinjective, hstring, htype⟩ := tokenize_quoted
  refine ⟨hcfg, ?_, fun heq => ?_, hstring "it's'", htype .brackets "tAbLe" (.inl rfl) (by decide)⟩
  · obtain ⟨hname, hd, hquotes, hopening, hquotation⟩ := hcfg
    exact hquote .brackets "]\"" closing hname hd hquotes hopening hquotation
  · have hab := hinjective .brackets "a]" "a" (by decide) (by decide) heq
    exact absurd hab (by decide)

end Script
end DdlSchema
