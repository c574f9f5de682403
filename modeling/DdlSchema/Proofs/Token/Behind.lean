import DdlSchema.Proofs.Token.Lexes

/-! How far a lexeme depends on what stands behind it, for all settings: only on whether a run may end
there. With another text of the same beginning, with a blank or with nothing behind it, a token stays
the token it is, but for letters and underscores that the settings count as punctuation. -/
namespace DdlSchema
namespace Lexer

variable {cfg : LexerConfig} {cs rest rest' : List Char} {l : Lexeme}

/-- In front of a blank and of the end a run may end. -/
theorem endsRun_of_blank (cfg : LexerConfig) (h : ∀ c ∈ rest.head?, Text.isBlank c = true) :
    cfg.endsRun rest = true := by
  cases rest with
  | nil => rfl
  | cons c rest => rw [LexerConfig.endsRun, h c rfl, Bool.true_or]

/-- A text that can stand behind a token in place of another: it begins as the other does or with a
blank, or it is empty. -/
def StandsFor (rest' rest : List Char) : Prop :=
  ∀ c ∈ rest'.head?, c ∈ rest.head? ∨ Text.isBlank c = true

namespace StandsFor

theorem of_head (h : ∀ c ∈ rest'.head?, c ∈ rest.head?) : StandsFor rest' rest :=
  fun c hc => .inl (h c hc)

theorem of_blank (h : ∀ c ∈ rest'.head?, Text.isBlank c = true) : StandsFor rest' rest :=
  fun c hc => .inr (h c hc)

theorem endsRun (h : StandsFor rest' rest) (hrest : cfg.endsRun rest = true) :
    cfg.endsRun rest' = true := by
  cases rest' with
  | nil => rfl
  | cons c rest' =>
    rcases h c rfl with hc | hc
    · refine endsRun_of_head (fun d hd => ?_) hrest
      obtain rfl : c = d := Option.some.inj hd
      exact hc
    · rw [LexerConfig.endsRun, hc, Bool.true_or]

/-- What no blank does, the text does not begin with if the other does not. -/
theorem stops (h : StandsFor rest' rest) {p : Char → Bool}
    (hblank : ∀ c, Text.isBlank c = true → p c = false) (hrest : ∀ c ∈ rest.head?, p c = false) :
    ∀ c ∈ rest'.head?, p c = false := by
  intro c hc
  rcases h c hc with hc | hc
  · exact hrest c hc
  · exact hblank c hc

end StandsFor

section Rules

theorem continuesWord_of_isBlank {c : Char} (h : Text.isBlank c = true) :
    continuesWord c = false := by
  refine Bool.eq_false_iff.2 fun hword => ?_
  rw [isBlank_of_continuesWord hword] at h
  cases h

theorem isDigit_of_isBlank {c : Char} (h : Text.isBlank c = true) : c.isDigit = false := by
  refine Bool.eq_false_iff.2 fun hdigit => ?_
  have hword := continuesWord_of_isDigit hdigit
  rw [continuesWord_of_isBlank h] at hword
  cases hword

theorem word_standsFor (h : word cfg cs = some (.ok l)) (hrest : StandsFor rest' l.rest) :
    word cfg (l.taken ++ rest') = some (.ok ⟨l.kind, l.taken, rest'⟩) := by
  unfold word at h
  split at h
  · cases h
  · split at h
    · rename_i c cs hc
      obtain ⟨rfl, hends⟩ := closed_eq_some.1 h
      obtain ⟨hw, hstop⟩ := of_takeWhile (p := continuesWord) cs
      exact word_eq hc hw (hrest.stops (fun _ => continuesWord_of_isBlank) hstop)
        (hrest.endsRun hends)
    · cases h

theorem punctuation_standsFor (h : punctuation cfg cs = some (.ok l)) (rest' : List Char) :
    punctuation cfg (l.taken ++ rest') = some (.ok ⟨l.kind, l.taken, rest'⟩) := by
  unfold punctuation at h
  split at h
  · cases h
  · split at h
    · rename_i c cs hc
      obtain rfl : _ = l := by simpa using h
      exact if_pos hc
    · cases h

theorem integer_standsFor (h : integer cfg cs = some (.ok l)) (hrest : StandsFor rest' l.rest) :
    integer cfg (l.taken ++ rest') = some (.ok ⟨l.kind, l.taken, rest'⟩) := by
  unfold integer at h
  have hsgn := isSign_sign cs
  generalize sign cs = p at h hsgn
  obtain ⟨sgn, ds⟩ := p
  dsimp only at h hsgn
  split at h
  · cases h
  · rename_i hne
    split at h
    · rename_i hends
      split at h
      · rename_i hvalue
        obtain rfl : _ = l := by simpa using h
        obtain ⟨hds, hstop⟩ := of_takeWhile (p := Char.isDigit) ds
        have hsome : ds.takeWhile Char.isDigit ≠ [] := by simpa using hne
        obtain ⟨d, digits, hdigits⟩ := List.exists_cons_of_ne_nil hsome
        have hsign : sign (sgn ++ ds.takeWhile Char.isDigit ++ rest') =
            (sgn, ds.takeWhile Char.isDigit ++ rest') := by
          rw [hdigits] at hds ⊢
          rw [List.append_assoc]
          exact sign_append_digits hsgn (hds d List.mem_cons_self) (digits ++ rest')
        exact integer_eq hsign hds hsome
          (hrest.stops (fun _ => isDigit_of_isBlank) hstop) (hrest.endsRun hends) hvalue
      · cases h
    · cases h

/-- A quoted run ends at its end also in front of the other text. -/
theorem StandsFor.ne_of_read {q : QuotedRun} {doubles : Bool} {close : Char}
    (hclose : Text.isBlank close = false) (hread : QuotedRun.read close doubles cs = some q)
    (hrest : StandsFor rest' q.rest) (hdoubles : doubles = true) : ∀ c ∈ rest'.head?, c ≠ close := by
  rintro c hc rfl
  rcases hrest c hc with hmem | hblank
  · exact QuotedRun.rest_of_read hread hdoubles c hmem rfl
  · rw [hclose] at hblank
    cases hblank

theorem string_standsFor (h : string cfg cs = some (.ok l)) (hrest : StandsFor rest' l.rest) :
    string cfg (l.taken ++ rest') = some (.ok ⟨l.kind, l.taken, rest'⟩) := by
  unfold string at h
  split at h
  · split at h
    · rename_i q hread
      obtain ⟨rfl, hends⟩ := closed_eq_some.1 h
      have hstop := hrest.ne_of_read (by decide) hread rfl
      have hstring := string_eq q.value hstop (hrest.endsRun hends)
      simpa [(QuotedRun.taken_of_read hread).1] using hstring
    · cases h
  · cases h

theorem identifier_standsFor (h : identifier cfg cs = some (.ok l)) (hrest : StandsFor rest' l.rest) :
    identifier cfg (l.taken ++ rest') = some (.ok ⟨l.kind, l.taken, rest'⟩) := by
  unfold identifier at h
  split at h
  · cases h
  · split at h
    · cases h
    · rename_i c cs d hd
      obtain rfl := eq_opening_of_delimiter? hd
      split at h
      · cases h
      · split at h
        · cases h
        · rename_i q hread hne
          obtain ⟨rfl, hends⟩ := closed_eq_some.1 h
          obtain ⟨htaken, hname⟩ := QuotedRun.taken_of_read hread
          have hclosing : Text.isBlank d.closing = false := by cases d <;> decide
          have hidentifier := identifier_eq hd (by simpa using hne) hname
            (hrest.ne_of_read hclosing hread) (hrest.endsRun hends)
          simpa [htaken, inside] using hidentifier

end Rules

section Lexemes

/-- Whether a text begins with a comment, whole or not. -/
def OpensComment (cs : List Char) : Prop := ['-', '-'] <+: cs ∨ ['/', '*'] <+: cs

theorem comment_eq_none_iff : comment cs = none ↔ ¬OpensComment cs := by
  unfold comment OpensComment
  split
  · simp
  · split <;> simp
  · rename_i hline hblock
    simp only [true_iff, not_or]
    exact ⟨fun ⟨more, hmore⟩ => hline more hmore.symm,
      fun ⟨more, hmore⟩ => hblock more hmore.symm⟩

theorem trivia_eq_none_iff {c : Char} :
    trivia cfg (c :: cs) = none ↔
      Text.isBlank c = false ∧ (cfg.comments = true → ¬OpensComment (c :: cs)) := by
  rw [← comment_eq_none_iff]
  unfold trivia
  by_cases hc : Text.isBlank c = true
  · simp [hc]
  · cases hcomments : cfg.comments <;> simp [hc]

theorem StandsFor.isPrefix {a b c : Char} {w : List Char} (hrest : StandsFor rest' rest)
    (hb : Text.isBlank b = false) (h : [a, b] <+: c :: (w ++ rest')) :
    [a, b] <+: c :: (w ++ rest) := by
  cases w with
  | cons d w => simpa [List.cons_prefix_cons] using h
  | nil =>
    obtain ⟨rfl, more, rfl⟩ : a = c ∧ [b] <+: rest' := List.cons_prefix_cons.1 h
    rcases hrest b rfl with hmem | hblank
    · obtain ⟨more, rfl⟩ := List.head?_eq_some_iff.1 hmem
      exact ⟨more, rfl⟩
    · rw [hb] at hblank
      cases hblank

/-- A text that begins with no trivia still does not, once it begins with a token. -/
theorem trivia_standsFor {c : Char} {w : List Char} (h : trivia cfg (c :: (w ++ rest)) = none)
    (hrest : StandsFor rest' rest) : trivia cfg (c :: (w ++ rest')) = none := by
  rw [trivia_eq_none_iff] at h ⊢
  refine ⟨h.1, fun hcomments hopens => h.2 hcomments ?_⟩
  exact hopens.imp (hrest.isPrefix (by decide)) (hrest.isPrefix (by decide))

theorem kind_of_trivia (h : trivia cfg cs = some (.ok l)) : l.kind = none := by
  unfold trivia comment at h
  split at h
  · split at h
    · split at h
      · obtain rfl : _ = l := by simpa using h
        rfl
      · split at h
        · obtain rfl : _ = l := by simpa using h
          rfl
        · cases h
      · cases h
    · cases h
  · obtain rfl : _ = l := by simpa using h
    rfl

theorem kind_of_punctuation (h : punctuation cfg cs = some (.ok l)) :
    ∃ c, l.kind = some (.punctuation c) := by
  unfold punctuation at h
  split at h
  · cases h
  · split at h
    · rename_i c cs _
      obtain rfl : _ = l := by simpa using h
      exact ⟨c, rfl⟩
    · cases h

theorem startsWord_of_word {c : Char} {x : Except Refusal Lexeme}
    (h : word cfg (c :: cs) = some x) : startsWord c = true := by
  by_contra hc
  rw [word_eq_none (by simpa using hc)] at h
  cases h

theorem isPunctuation_of_none {c : Char} (h : punctuation cfg (c :: cs) = none) :
    cfg.isPunctuation c = false := by
  refine Bool.eq_false_iff.2 fun hc => ?_
  rw [punctuation, if_pos hc] at h
  cases h

theorem startsWord_of_integer {c : Char} {x : Except Refusal Lexeme}
    (h : integer cfg (c :: cs) = some x) : startsWord c = false := by
  refine Bool.eq_false_iff.2 fun hc => ?_
  have hdigit : c.isDigit = false := Bool.eq_false_iff.2 fun hdigit => by
    rw [startsWord_of_isDigit hdigit] at hc
    cases hc
  rw [integer_eq_none (by rintro rfl; cases hc) (by rintro rfl; cases hc) hdigit] at h
  cases h

theorem eq_quote_of_string {c : Char} {x : Except Refusal Lexeme}
    (h : string cfg (c :: cs) = some x) : c = '\'' := by
  by_contra hc
  rw [string_eq_none hc] at h
  cases h

theorem eq_opening_of_identifier {c : Char} {x : Except Refusal Lexeme}
    (h : identifier cfg (c :: cs) = some x) : ∃ d : Delimiter, c = d.opening := by
  cases hd : cfg.delimiter? c with
  | some d => exact ⟨d, eq_opening_of_delimiter? hd⟩
  | none =>
    simp only [identifier, hd] at h
    cases h

/-- A token stays what it is in front of another text. Only punctuation must not become a word. -/
theorem lexeme_standsFor {k : TokenKind} (h : lexeme cfg cs = some (.ok l)) (hkind : l.kind = some k)
    (hrest : StandsFor rest' l.rest)
    (hletter : ∀ c, k = .punctuation c → word cfg (l.taken ++ rest') = none) :
    lexeme cfg (l.taken ++ rest') = some (.ok ⟨l.kind, l.taken, rest'⟩) := by
  obtain ⟨hcs, hne⟩ := lexeme_splits h
  obtain ⟨c, w, htaken⟩ := List.exists_cons_of_ne_nil hne
  rw [htaken, List.cons_append] at hcs
  subst hcs
  rw [lexeme_eq] at h
  simp only [Option.or_eq_some_iff] at h
  rcases h with h | ⟨htrivia, h | ⟨hword, h | ⟨hpunctuation, h | ⟨-, h | ⟨-, h⟩⟩⟩⟩⟩
  · rw [kind_of_trivia h] at hkind
    cases hkind
  · have hnew := word_standsFor h hrest
    rw [htaken] at hnew ⊢
    exact lexeme_of_word (startsWord_of_word h) hnew
  · obtain ⟨d, hd⟩ := kind_of_punctuation h
    rw [hd] at hkind
    have hnone := hletter d (Option.some.inj hkind).symm
    have hnew := punctuation_standsFor h rest'
    rw [htaken, List.cons_append] at hnew hnone ⊢
    rw [lexeme_eq, trivia_standsFor htrivia hrest, hnone, hnew]
    rfl
  · have hnew := integer_standsFor h hrest
    rw [htaken, List.cons_append] at hnew ⊢
    rw [lexeme_eq, trivia_standsFor htrivia hrest, word_eq_none (startsWord_of_integer h),
      punctuation_eq_none (isPunctuation_of_none hpunctuation), hnew]
    rfl
  · obtain rfl := eq_quote_of_string h
    have hnew := string_standsFor h hrest
    rw [htaken, List.cons_append] at hnew ⊢
    exact lexeme_of_string (isPunctuation_of_none hpunctuation) hnew
  · obtain ⟨d, rfl⟩ := eq_opening_of_identifier h
    have hnew := identifier_standsFor h hrest
    rw [htaken, List.cons_append] at hnew ⊢
    exact lexeme_of_identifier (isPunctuation_of_none hpunctuation) hnew

/-- A letter or an underscore is a word in front of a blank or the end, be it punctuation or not. -/
theorem lexeme_letter {c : Char} (hc : startsWord c = true)
    (hrest : ∀ d ∈ rest.head?, Text.isBlank d = true) :
    lexeme cfg (c :: rest) = some (.ok ⟨some (.word (.ofList [c])), [c], rest⟩) := by
  exact lexeme_of_word hc (word_eq (w := []) hc nofun
    (fun d hd => continuesWord_of_isBlank (hrest d hd)) (endsRun_of_blank cfg hrest))

end Lexemes

end Lexer
end DdlSchema
