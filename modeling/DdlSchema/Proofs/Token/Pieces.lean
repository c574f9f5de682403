import DdlSchema.Proofs.Token.Kinds

/-! The pieces of a text and the kinds that they add. Words, integers and quoted runs need a blank, a
punctuation character or the end behind them. -/
namespace DdlSchema

/-- Settings whose punctuation is of the usual kind, so that no piece begins with it or goes on in it. -/
def LexerConfig.IsPlain (cfg : LexerConfig) : Prop :=
  ∀ c, cfg.isPunctuation c = true → c ∈ ['(', ')', ',', ';']

namespace Lexer

variable {cfg : LexerConfig}

section Blanks

theorem lexeme_blank {b : Char} (hb : Text.isBlank b = true) (cs : List Char) :
    lexeme cfg (b :: cs) = some (.ok ⟨none, b :: cs.takeWhile Text.isBlank,
      cs.dropWhile Text.isBlank⟩) := by
  have htrivia : trivia cfg (b :: cs) = some (.ok ⟨none, b :: cs.takeWhile Text.isBlank,
      cs.dropWhile Text.isBlank⟩) := by
    rw [trivia, List.takeWhile_cons_of_pos hb, List.dropWhile_cons_of_pos hb]
  rw [lexeme, rules, List.findSome?_cons, htrivia]

theorem kinds_dropWhile (cs : List Char) :
    kinds cfg (cs.dropWhile Text.isBlank) = kinds cfg cs := by
  cases cs with
  | nil => rfl
  | cons c cs =>
    by_cases hc : Text.isBlank c = true
    · rw [List.dropWhile_cons_of_pos hc, kinds_of_lexeme (lexeme_blank hc cs)]
      simp
    · rw [List.dropWhile_cons_of_neg hc]

/-- Blanks add nothing. -/
theorem kinds_blank {b : Char} (hb : Text.isBlank b = true) (cs : List Char) :
    kinds cfg (b :: cs) = kinds cfg cs := by
  rw [kinds_of_lexeme (lexeme_blank hb cs), ← kinds_dropWhile cs]
  simp

end Blanks

section Rules

/-- The first rule that does not abstain decides. -/
theorem lexeme_eq (cfg : LexerConfig) (cs : List Char) :
    lexeme cfg cs = (trivia cfg cs).or ((word cfg cs).or ((punctuation cfg cs).or
      ((integer cfg cs).or ((string cfg cs).or (identifier cfg cs))))) := by
  simp only [lexeme, rules, List.findSome?_cons, List.findSome?_nil]
  cases trivia cfg cs <;> cases word cfg cs <;> cases punctuation cfg cs <;>
    cases integer cfg cs <;> cases string cfg cs <;> cases identifier cfg cs <;> rfl

/-- A text that begins with neither a blank nor a comment. -/
theorem trivia_eq_none {c : Char} {cs : List Char} (hb : Text.isBlank c = false)
    (hcomment : comment (c :: cs) = none) : trivia cfg (c :: cs) = none := by
  have hblank : ¬Text.isBlank c = true := by rw [hb]; nofun
  rw [trivia, List.takeWhile_cons_of_neg hblank]
  cases cfg.comments
  · rfl
  · exact hcomment

theorem comment_eq_none {c : Char} {cs : List Char} (hminus : c ≠ '-') (hslash : c ≠ '/') :
    comment (c :: cs) = none := by
  unfold comment
  split <;> simp_all

theorem word_eq_none {c : Char} {cs : List Char} (hc : startsWord c = false) :
    word cfg (c :: cs) = none := by
  rw [word, hc]
  rfl

theorem punctuation_eq_none {c : Char} {cs : List Char} (hc : cfg.isPunctuation c = false) :
    punctuation cfg (c :: cs) = none := by
  rw [punctuation, hc]
  rfl

theorem integer_eq_none {c : Char} {cs : List Char} (hplus : c ≠ '+') (hminus : c ≠ '-')
    (hc : c.isDigit = false) : integer cfg (c :: cs) = none := by
  have hsign : sign (c :: cs) = ([], c :: cs) := by
    unfold sign
    split <;> simp_all
  rw [integer, hsign]
  simp [hc]

theorem string_eq_none {c : Char} {cs : List Char} (hc : c ≠ '\'') :
    string cfg (c :: cs) = none := by
  unfold string
  split <;> simp_all

/-- The parts of a run and what stands behind it. -/
theorem takeWhile_append {p : Char → Bool} {w rest : List Char} (hw : ∀ c ∈ w, p c = true)
    (hrest : ∀ c ∈ rest.head?, p c = false) :
    (w ++ rest).takeWhile p = w ∧ (w ++ rest).dropWhile p = rest := by
  rw [List.takeWhile_append_of_pos hw, List.dropWhile_append_of_pos hw]
  cases rest with
  | nil => simp
  | cons c cs =>
    have hc := hrest c rfl
    simp [hc]

end Rules

section Words

/-- Where the characters of words lie. -/
theorem toNat_of_continuesWord {c : Char} (h : continuesWord c = true) :
    48 ≤ c.toNat ∧ c.toNat ≤ 122 := by
  delta continuesWord Char.isAlphanum Char.isAlpha Char.isUpper Char.isLower Char.isDigit at h
  simp only [Bool.or_eq_true, Bool.and_eq_true, decide_eq_true_eq, beq_iff_eq,
    UInt32.le_iff_toNat_le, ge_iff_le] at h
  have hval : c.val.toNat = c.toNat := rfl
  rw [hval] at h
  rcases h with ((⟨hlow, hhigh⟩ | ⟨hlow, hhigh⟩) | ⟨hlow, hhigh⟩) | rfl
  · exact ⟨Nat.le_trans (by decide) hlow, Nat.le_trans hhigh (by decide)⟩
  · exact ⟨Nat.le_trans (by decide) hlow, hhigh⟩
  · exact ⟨hlow, Nat.le_trans hhigh (by decide)⟩
  · decide

theorem isBlank_of_continuesWord {c : Char} (h : continuesWord c = true) :
    Text.isBlank c = false := by
  obtain ⟨hlow, hhigh⟩ := toNat_of_continuesWord h
  simp only [Text.isBlank, Text.isWhiteSpace, Text.isControl, Bool.or_eq_false_iff,
    Bool.and_eq_false_iff, decide_eq_false_iff_not, beq_eq_false_iff_ne]
  omega

theorem continuesWord_of_startsWord {c : Char} (h : startsWord c = true) :
    continuesWord c = true := by
  delta startsWord at h
  delta continuesWord Char.isAlphanum
  simp only [Bool.or_eq_true] at h ⊢
  exact h.imp_left .inl

theorem continuesWord_of_isDigit {c : Char} (h : c.isDigit = true) : continuesWord c = true := by
  delta continuesWord Char.isAlphanum
  simp [h]

theorem startsWord_of_isDigit {c : Char} (h : c.isDigit = true) : startsWord c = false := by
  delta Char.isDigit at h
  simp only [Bool.and_eq_true, decide_eq_true_eq, UInt32.le_iff_toNat_le, ge_iff_le] at h
  have hhigh : c.val.toNat ≤ 57 := h.2
  rw [Bool.eq_false_iff]
  intro hword
  delta startsWord Char.isAlpha Char.isUpper Char.isLower at hword
  simp only [Bool.or_eq_true, Bool.and_eq_true, decide_eq_true_eq, beq_iff_eq,
    UInt32.le_iff_toNat_le, ge_iff_le] at hword
  rcases hword with (⟨hlow, -⟩ | ⟨hlow, -⟩) | rfl
  · exact absurd (Nat.le_trans hlow hhigh) (by decide)
  · exact absurd (Nat.le_trans hlow hhigh) (by decide)
  · exact absurd hhigh (by decide)

end Words

section Ends

theorem eq_false_of_mem {p : Char → Bool} {cs : List Char} (h : cs.any p = false) {c : Char}
    (hc : c ∈ cs) : p c = false :=
  Bool.eq_false_iff.2 (List.any_eq_false.1 h c hc)

theorem isPunctuation_eq_false (hcfg : cfg.IsPlain) {c : Char} (hc : c ∉ ['(', ')', ',', ';']) :
    cfg.isPunctuation c = false := by
  refine Bool.eq_false_iff.2 fun h => ?_
  exact hc (hcfg c h)

theorem isPunctuation_of_continuesWord (hcfg : cfg.IsPlain) {c : Char}
    (h : continuesWord c = true) : cfg.isPunctuation c = false := by
  refine isPunctuation_eq_false hcfg fun hmem => ?_
  have hword : continuesWord c = false := eq_false_of_mem (by decide) hmem
  rw [hword] at h
  cases h

/-- What stands behind a run begins with no character of a word. -/
theorem continuesWord_head (hcfg : cfg.IsPlain) {rest : List Char} (h : cfg.endsRun rest = true) :
    ∀ c ∈ rest.head?, continuesWord c = false := by
  intro c hc
  cases rest with
  | nil => cases hc
  | cons d rest =>
    obtain rfl : d = c := Option.some.inj hc
    refine Bool.eq_false_iff.2 fun hword => ?_
    rw [LexerConfig.endsRun, isBlank_of_continuesWord hword,
      isPunctuation_of_continuesWord hcfg hword] at h
    cases h

theorem isDigit_head (hcfg : cfg.IsPlain) {rest : List Char} (h : cfg.endsRun rest = true) :
    ∀ c ∈ rest.head?, c.isDigit = false := by
  intro c hc
  refine Bool.eq_false_iff.2 fun hdigit => ?_
  have hword := continuesWord_of_isDigit hdigit
  rw [continuesWord_head hcfg h c hc] at hword
  cases hword

end Ends

section Pieces

theorem lexeme_punctuation (hcfg : cfg.IsPlain) {c : Char} (hc : cfg.isPunctuation c = true)
    (rest : List Char) :
    lexeme cfg (c :: rest) = some (.ok ⟨some (.punctuation c), [c], rest⟩) := by
  have hplain := hcfg c hc
  have hblank : Text.isBlank c = false := eq_false_of_mem (by decide) hplain
  have hword : startsWord c = false := eq_false_of_mem (by decide) hplain
  have hminus : c ≠ '-' := by rintro rfl; revert hplain; decide
  have hslash : c ≠ '/' := by rintro rfl; revert hplain; decide
  have htrivia : trivia cfg (c :: rest) = none :=
    trivia_eq_none hblank (comment_eq_none hminus hslash)
  rw [lexeme_eq, htrivia, word_eq_none hword, punctuation, if_pos hc]
  rfl

theorem kinds_punctuation (hcfg : cfg.IsPlain) {c : Char} (hc : cfg.isPunctuation c = true)
    (rest : List Char) : kinds cfg (c :: rest) = (kinds cfg rest).map (.punctuation c :: ·) :=
  kinds_of_lexeme (lexeme_punctuation hcfg hc rest)

/-- A run of word characters, where what stands behind it lets it end and does not go on with it. -/
theorem word_eq {c : Char} {w rest : List Char} (hc : startsWord c = true)
    (hw : ∀ d ∈ w, continuesWord d = true) (hstop : ∀ d ∈ rest.head?, continuesWord d = false)
    (hrest : cfg.endsRun rest = true) :
    word cfg (c :: (w ++ rest)) =
      some (.ok ⟨some (.word (.ofList (c :: w))), c :: w, rest⟩) := by
  obtain ⟨htake, hdrop⟩ := takeWhile_append hw hstop
  rw [word, if_pos hc, htake, hdrop, closed, if_pos hrest]

/-- Where a word can begin, its rule is the first not to abstain. -/
theorem lexeme_of_word {c : Char} {cs : List Char} {x : Except Refusal Lexeme}
    (hc : startsWord c = true) (h : word cfg (c :: cs) = some x) : lexeme cfg (c :: cs) = some x := by
  have hminus : c ≠ '-' := by rintro rfl; cases hc
  have hslash : c ≠ '/' := by rintro rfl; cases hc
  have htrivia : trivia cfg (c :: cs) = none :=
    trivia_eq_none (isBlank_of_continuesWord (continuesWord_of_startsWord hc))
      (comment_eq_none hminus hslash)
  rw [lexeme_eq, htrivia, h]
  rfl

theorem lexeme_word (hcfg : cfg.IsPlain) {c : Char} {w rest : List Char} (hc : startsWord c = true)
    (hw : ∀ d ∈ w, continuesWord d = true) (hrest : cfg.endsRun rest = true) :
    lexeme cfg (c :: (w ++ rest)) =
      some (.ok ⟨some (.word (.ofList (c :: w))), c :: w, rest⟩) :=
  lexeme_of_word hc (word_eq hc hw (continuesWord_head hcfg hrest) hrest)

theorem kinds_word (hcfg : cfg.IsPlain) {c : Char} {w rest : List Char} (hc : startsWord c = true)
    (hw : ∀ d ∈ w, continuesWord d = true) (hrest : cfg.endsRun rest = true) :
    kinds cfg (c :: w ++ rest) = (kinds cfg rest).map (.word (.ofList (c :: w)) :: ·) :=
  kinds_of_lexeme (lexeme_word hcfg hc hw hrest)

end Pieces

section Integers

/-- Whether a number has 64 bits. -/
def IsInt64 (n : Int) : Prop := -int64Limit ≤ n ∧ n < int64Limit

theorem toList_toString (n : Int) :
    (toString n).toList = (if n < 0 then ['-'] else []) ++ Nat.toDigits 10 n.natAbs := by
  cases n with
  | ofNat n =>
    have hn : ¬(Int.ofNat n < 0) := by simp
    rw [if_neg hn]
    exact Nat.toList_repr
  | negSucc n =>
    rw [if_pos (Int.negSucc_lt_zero n), Int.toString_eq_repr, Int.repr_eq_if]
    simp [String.toList_append]

theorem digitsValue_toDigits (n : Nat) : digitsValue (Nat.toDigits 10 n) = n := by
  have h := Nat.ofDigitChars_ten_toDigits (n := n)
  rwa [Nat.ofDigitChars_eq_foldl] at h

theorem int64?_toDigits {n : Int} (hn : IsInt64 n) :
    int64? (if n < 0 then ['-'] else []) (Nat.toDigits 10 n.natAbs) = some n := by
  obtain ⟨hlow, hhigh⟩ := hn
  unfold int64?
  rw [digitsValue_toDigits]
  by_cases hneg : n < 0
  · have hle : n.natAbs ≤ int64Limit := by omega
    have habs : -(n.natAbs : Int) = n := by omega
    rw [if_pos hneg, if_pos rfl, if_pos hle, habs]
  · have hlt : n.natAbs < int64Limit := by omega
    have habs : (n.natAbs : Int) = n := by omega
    rw [if_neg hneg, if_neg nofun, if_pos hlt, habs]

/-- What may stand in front of digits. -/
def IsSign (sgn : List Char) : Prop := sgn ∈ [[], ['+'], ['-']]

theorem isSign_minus (n : Int) : IsSign (if n < 0 then ['-'] else []) := by
  by_cases hneg : n < 0 <;> simp [IsSign, hneg]

theorem isSign_sign (cs : List Char) : IsSign (sign cs).1 := by
  unfold sign IsSign
  split <;> simp

theorem sign_append_digits {sgn : List Char} (hsgn : IsSign sgn) {d : Char} (hd : d.isDigit = true)
    (ds : List Char) : sign (sgn ++ d :: ds) = (sgn, d :: ds) := by
  simp only [IsSign, List.mem_cons, List.not_mem_nil, or_false] at hsgn
  rcases hsgn with rfl | rfl | rfl
  · rw [List.nil_append]
    unfold sign
    split <;> simp_all
  · rfl
  · rfl

theorem integer_eq {cs sgn ds rest : List Char} {n : Int} (hsign : sign cs = (sgn, ds ++ rest))
    (hds : ∀ d ∈ ds, d.isDigit = true) (hne : ds ≠ [])
    (hstop : ∀ c ∈ rest.head?, c.isDigit = false) (hrest : cfg.endsRun rest = true)
    (hvalue : int64? sgn ds = some n) :
    integer cfg cs = some (.ok ⟨some (.integer n), sgn ++ ds, rest⟩) := by
  obtain ⟨htake, hdrop⟩ := takeWhile_append hds hstop
  unfold integer
  simp only [hsign, htake, hdrop]
  simp [hne, hrest, hvalue]

/-- The rules in front of the one for integers leave signed digits to it. -/
theorem before_integer_eq_none (hcfg : cfg.IsPlain) {sgn : List Char} (hsgn : IsSign sgn) {d : Char}
    (hd : d.isDigit = true) (ds : List Char) :
    let cs := sgn ++ d :: ds
    trivia cfg cs = none ∧ word cfg cs = none ∧ punctuation cfg cs = none := by
  have hminus : d ≠ '-' := by rintro rfl; cases hd
  simp only [IsSign, List.mem_cons, List.not_mem_nil, or_false] at hsgn
  rcases hsgn with rfl | rfl | rfl
  · have hslash : d ≠ '/' := by rintro rfl; cases hd
    have hword := continuesWord_of_isDigit hd
    exact ⟨trivia_eq_none (isBlank_of_continuesWord hword) (comment_eq_none hminus hslash),
      word_eq_none (startsWord_of_isDigit hd),
      punctuation_eq_none (isPunctuation_of_continuesWord hcfg hword)⟩
  · exact ⟨trivia_eq_none (by decide) (comment_eq_none (by decide) (by decide)),
      word_eq_none (by decide), punctuation_eq_none (isPunctuation_eq_false hcfg (by decide))⟩
  · have hcomment : comment ('-' :: d :: ds) = none := by
      unfold comment
      split <;> simp_all
    exact ⟨trivia_eq_none (by decide) hcomment, word_eq_none (by decide),
      punctuation_eq_none (isPunctuation_eq_false hcfg (by decide))⟩

theorem lexeme_integer (hcfg : cfg.IsPlain) {sgn ds rest : List Char} {n : Int} (hsgn : IsSign sgn)
    (hds : ∀ d ∈ ds, d.isDigit = true) (hne : ds ≠ []) (hrest : cfg.endsRun rest = true)
    (hvalue : int64? sgn ds = some n) :
    lexeme cfg (sgn ++ (ds ++ rest)) = some (.ok ⟨some (.integer n), sgn ++ ds, rest⟩) := by
  obtain ⟨d, ds, rfl⟩ := List.exists_cons_of_ne_nil hne
  have hd : d.isDigit = true := hds d List.mem_cons_self
  have hinteger := integer_eq (sign_append_digits hsgn hd (ds ++ rest)) hds hne
    (isDigit_head hcfg hrest) hrest hvalue
  obtain ⟨htrivia, hword, hpunctuation⟩ := before_integer_eq_none hcfg hsgn hd (ds ++ rest)
  rw [List.cons_append, lexeme_eq, htrivia, hword, hpunctuation, hinteger]
  rfl

theorem isDigit_of_mem_toDigits {n : Nat} {c : Char} (hc : c ∈ Nat.toDigits 10 n) :
    c.isDigit = true :=
  Nat.isDigit_of_mem_toDigits (by decide) (Nat.le_refl 10) hc

/-- The decimal text of a number. -/
theorem kinds_integer (hcfg : cfg.IsPlain) {n : Int} (hn : IsInt64 n) {rest : List Char}
    (hrest : cfg.endsRun rest = true) :
    kinds cfg ((toString n).toList ++ rest) = (kinds cfg rest).map (.integer n :: ·) := by
  have hdigits : ∀ c ∈ Nat.toDigits 10 n.natAbs, c.isDigit = true := fun c hc =>
    isDigit_of_mem_toDigits hc
  rw [toList_toString, List.append_assoc]
  exact kinds_of_lexeme
    (lexeme_integer hcfg (isSign_minus n) hdigits Nat.toDigits_ne_nil hrest (int64?_toDigits hn))

end Integers

end Lexer
end DdlSchema
