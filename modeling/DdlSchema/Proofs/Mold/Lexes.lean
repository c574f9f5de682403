import DdlSchema.Mold.Token
import Mathlib.Data.List.TakeWhile

/-! The tokens of a grammar text are its split into longest matches of the token classes, with the trivia
left out. -/
namespace DdlSchema
namespace Mold

section Classes

/-- What stands between the quotes of a string: any characters, but a backslash only in front of one that
is no newline, and a quote only behind a backslash. -/
inductive StringBody : List Char → Prop
  | nil : StringBody []
  | plain {c : Char} {cs : List Char} (hquote : c ≠ '"') (hescape : c ≠ '\\') (hcs : StringBody cs) :
      StringBody (c :: cs)
  | pair {c : Char} {cs : List Char} (hc : c ≠ '\n') (hcs : StringBody cs) :
      StringBody ('\\' :: c :: cs)

/-- The texts of the token classes, and of trivia. -/
inductive Matches : Option TokenKind → List Char → Prop
  | opening : Matches (some .opening) ['(']
  | closing : Matches (some .closing) [')']
  | string {body : List Char} (hbody : StringBody body) : Matches (some .string) ('"' :: (body ++ ['"']))
  | keyword {c : Char} {cs : List Char} (hc : c.isAlpha = true)
      (hcs : ∀ d ∈ cs, continuesKeyword d = true) : Matches (some .keyword) (':' :: c :: cs)
  | symbol {c : Char} {cs : List Char} (hc : startsSymbol c = true)
      (hcs : ∀ d ∈ cs, continuesSymbol d = true) : Matches (some .symbol) (c :: cs)
  | spaces {c : Char} {cs : List Char} (hc : isSpace c = true) (hcs : ∀ d ∈ cs, isSpace d = true) :
      Matches none (c :: cs)
  | newline : Matches none ['\n']
  | comment {cs : List Char} (hcs : ∀ d ∈ cs, d ≠ '\n') : Matches none (';' :: cs)

theorem Matches.ne_nil {kind : Option TokenKind} {taken : List Char} (h : Matches kind taken) :
    taken ≠ [] := by
  cases h <;> nofun

/-- A text of a class such that none at the same place is longer, of whatever class. -/
structure IsLongest (kind : Option TokenKind) (taken rest : List Char) : Prop where
  matches_taken : Matches kind taken
  length_le : ∀ kind' taken' rest', taken' ++ rest' = taken ++ rest → Matches kind' taken' →
    taken'.length ≤ taken.length

/-- A text that begins at byte `start` is a row of longest matches, of which the tokens are listed. -/
inductive Splits : Nat → List Char → List Token → Prop
  | nil (start : Nat) : Splits start [] []
  | trivia {start : Nat} {taken rest : List Char} {ts : List Token} (hlongest : IsLongest none taken rest)
      (hrest : Splits (start + byteSize taken) rest ts) : Splits start (taken ++ rest) ts
  | token {start : Nat} {kind : TokenKind} {taken rest : List Char} {ts : List Token}
      (hlongest : IsLongest (some kind) taken rest)
      (hrest : Splits (start + byteSize taken) rest ts) :
      Splits start (taken ++ rest) (⟨kind, taken, ⟨start, start + byteSize taken⟩⟩ :: ts)

end Classes

section Lexemes

variable {c : Char} {cs rest : List Char}

theorem stringRun_of_body {body : List Char} (h : StringBody body) :
    stringRun (body ++ '"' :: rest) = .ok (body ++ ['"'], rest) := by
  induction h with
  | nil => rfl
  | plain hquote hescape _ ih =>
    rw [List.cons_append, stringRun.eq_4 _ _ hquote (fun c' cs' hc => absurd hc hescape), ih]
    rfl
  | pair hc _ ih =>
    rw [List.cons_append, List.cons_append, stringRun, if_neg hc, ih]
    rfl

theorem body_of_stringRun {taken : List Char} (h : stringRun cs = .ok (taken, rest)) :
    ∃ body, StringBody body ∧ taken = body ++ ['"'] := by
  fun_induction stringRun cs generalizing taken rest with
  | case1 => cases h
  | case2 cs =>
    cases h
    exact ⟨[], .nil, rfl⟩
  | case3 => cases h
  | case4 c cs hc body rest' hrun ih =>
    cases h
    obtain ⟨body', hbody, rfl⟩ := ih hrun
    exact ⟨'\\' :: c :: body', .pair hc hbody, rfl⟩
  | case5 => cases h
  | case6 c cs hquote hescape body rest' hrun ih =>
    cases h
    obtain ⟨body', hbody, rfl⟩ := ih hrun
    have hc : c ≠ '\\' := by
      rintro rfl
      cases cs with
      | nil => cases hrun
      | cons d cs => exact hescape d cs rfl rfl
    exact ⟨c :: body', .plain (by simpa using hquote) hc hbody, rfl⟩
  | case7 => cases h

theorem lexeme_space (hc : isSpace c = true) :
    lexeme c cs = .ok ⟨none, c :: cs.takeWhile isSpace, cs.dropWhile isSpace⟩ := by
  have hcases : (c = ' ' ∨ c = '\t') ∨ c = '\r' := by simpa [isSpace] using hc
  rcases hcases with (rfl | rfl) | rfl <;> rfl

theorem lexeme_symbol (hc : startsSymbol c = true) : lexeme c cs =
    .ok ⟨some .symbol, c :: cs.takeWhile continuesSymbol, cs.dropWhile continuesSymbol⟩ := by
  have hne {d : Char} (hd : startsSymbol d = false) : c ≠ d := by
    rintro rfl
    simp [hc] at hd
  have hspace : isSpace c = false := by
    simp [isSpace, hne (d := ' ') rfl, hne (d := '\t') rfl, hne (d := '\r') rfl]
  simp [lexeme, hspace, hc, hne (d := '(') rfl, hne (d := ')') rfl, hne (d := '\n') rfl,
    hne (d := ';') rfl, hne (d := '"') rfl, hne (d := ':') rfl]

theorem lexeme_keyword (hc : c.isAlpha = true) : lexeme ':' (c :: cs) = .ok ⟨some .keyword,
    ':' :: (c :: cs).takeWhile continuesKeyword, (c :: cs).dropWhile continuesKeyword⟩ := by
  simp [lexeme, isSpace, hc]

theorem length_le_takeWhile {p : Char → Bool} {more : List Char} (hall : ∀ d ∈ cs, p d = true) :
    cs.length ≤ ((cs ++ more).takeWhile p).length := by
  rw [List.takeWhile_append_of_pos hall, List.length_append]
  omega

/-- The lexer finds a lexeme of the class of any match, and none that is shorter. -/
theorem lexeme_of_matches {kind : Option TokenKind} {taken : List Char} (h : Matches kind taken)
    (htext : taken ++ rest = c :: cs) :
    ∃ l, lexeme c cs = .ok l ∧ l.kind = kind ∧ taken.length ≤ l.taken.length := by
  cases h with
  | opening | closing | newline =>
    obtain ⟨rfl, rfl⟩ := List.cons.inj htext
    exact ⟨_, rfl, rfl, Nat.le_refl _⟩
  | string hbody =>
    obtain ⟨rfl, rfl⟩ := List.cons.inj htext
    refine ⟨⟨some .string, _, rest⟩, ?_, rfl, Nat.le_refl _⟩
    have hrun : stringRun _ = .ok (_, rest) := stringRun_of_body hbody
    simp [lexeme, isSpace, hrun]
  | @keyword d ds hd hds =>
    obtain ⟨rfl, rfl⟩ := List.cons.inj htext
    refine ⟨⟨some .keyword, _, _⟩, lexeme_keyword hd, rfl, Nat.succ_le_succ ?_⟩
    have hword : ∀ x ∈ d :: ds, continuesKeyword x = true := by
      simpa [continuesKeyword, Char.isAlphanum, hd] using hds
    exact length_le_takeWhile hword
  | symbol hc hcs =>
    obtain ⟨rfl, rfl⟩ := List.cons.inj htext
    exact ⟨_, lexeme_symbol hc, rfl, Nat.succ_le_succ (length_le_takeWhile hcs)⟩
  | spaces hc hcs =>
    obtain ⟨rfl, rfl⟩ := List.cons.inj htext
    exact ⟨_, lexeme_space hc, rfl, Nat.succ_le_succ (length_le_takeWhile hcs)⟩
  | comment hcs =>
    obtain ⟨rfl, rfl⟩ := List.cons.inj htext
    exact ⟨_, rfl, rfl, Nat.succ_le_succ (length_le_takeWhile (by simpa using hcs))⟩

/-- What the lexer takes is a match of its class. -/
theorem matches_of_lexeme {l : Lexeme} (h : lexeme c cs = .ok l) : Matches l.kind l.taken := by
  unfold lexeme at h
  split at h
  case isTrue hc => cases h; exact hc ▸ .opening
  split at h
  case isTrue hc => cases h; exact hc ▸ .closing
  split at h
  case isTrue hc => cases h; exact hc ▸ .newline
  split at h
  case isTrue hc => cases h; exact .spaces hc fun d => List.mem_takeWhile_imp
  split at h
  case isTrue hc =>
    cases h
    exact hc ▸ .comment fun d hd => by simpa using List.mem_takeWhile_imp hd
  split at h
  case isTrue hc =>
    split at h
    case h_1 hrun =>
      cases h
      obtain ⟨body, hbody, rfl⟩ := body_of_stringRun hrun
      exact hc ▸ .string hbody
    case h_2 => cases h
  split at h
  case isTrue hc =>
    cases h
    cases cs with
    | nil => simp at hc
    | cons d cs =>
      obtain ⟨rfl, hd⟩ : c = ':' ∧ d.isAlpha = true := by simpa using hc
      have hword : continuesKeyword d = true := by simp [continuesKeyword, Char.isAlphanum, hd]
      rw [List.takeWhile_cons_of_pos hword]
      exact .keyword hd fun x => List.mem_takeWhile_imp
  split at h
  case isTrue hc => cases h; exact .symbol hc fun d => List.mem_takeWhile_imp
  case isFalse => cases h

theorem taken_append_rest {l : Lexeme} (h : lexeme c cs = .ok l) : l.taken ++ l.rest = c :: cs := by
  obtain ⟨more, htaken, hmore⟩ := lexeme_append h
  rw [htaken, List.cons_append, hmore]

/-- The lexer takes the longest match at the front. -/
theorem lexeme_eq_ok_iff {l : Lexeme} :
    lexeme c cs = .ok l ↔ l.taken ++ l.rest = c :: cs ∧ IsLongest l.kind l.taken l.rest := by
  constructor
  · intro h
    have htext := taken_append_rest h
    refine ⟨htext, matches_of_lexeme h, fun kind' taken' rest' htext' hmatch => ?_⟩
    obtain ⟨l', hl', -, hlength⟩ := lexeme_of_matches hmatch (htext'.trans htext)
    rw [h] at hl'
    cases hl'
    exact hlength
  · rintro ⟨htext, hmatch, hlongest⟩
    obtain ⟨l', hl', hkind, hlength⟩ := lexeme_of_matches hmatch htext
    have htext' := (taken_append_rest hl').trans htext.symm
    have hle := hlongest _ _ _ htext' (matches_of_lexeme hl')
    obtain ⟨htaken, hrest⟩ := List.append_inj htext' (Nat.le_antisymm hle hlength)
    obtain rfl : l' = l := by
      cases l
      cases l'
      simp_all
    exact hl'

end Lexemes

section Tokens

variable {start : Nat} {cs : List Char} {ts : List Token}

theorem splits_of_tokens (h : tokens start cs = .ok ts) : Splits start cs ts := by
  fun_induction tokens start cs generalizing ts
  case case1 start =>
    cases h
    exact .nil start
  case case2 => cases h
  case case3 => cases h
  case case4 start c cs l hl stop ts' hts hkind ih =>
    cases h
    obtain ⟨htext, hlongest⟩ := lexeme_eq_ok_iff.1 hl
    rw [hkind] at hlongest
    rw [← htext]
    exact .trivia hlongest (ih hts)
  case case5 start c cs l hl stop ts' hts kind hkind ih =>
    cases h
    obtain ⟨htext, hlongest⟩ := lexeme_eq_ok_iff.1 hl
    rw [hkind] at hlongest
    rw [← htext]
    exact .token hlongest (ih hts)

theorem tokens_of_longest {kind : Option TokenKind} {taken rest : List Char}
    (hlongest : IsLongest kind taken rest)
    (hrest : tokens (start + byteSize taken) rest = .ok ts) :
    tokens start (taken ++ rest) = .ok (kind.elim ts fun kind =>
      ⟨kind, taken, ⟨start, start + byteSize taken⟩⟩ :: ts) := by
  obtain ⟨c, cs, htext⟩ : ∃ c cs, taken ++ rest = c :: cs :=
    List.exists_cons_of_ne_nil fun hnil =>
      hlongest.matches_taken.ne_nil (List.append_eq_nil_iff.1 hnil).1
  have hl : lexeme c cs = .ok ⟨kind, taken, rest⟩ := lexeme_eq_ok_iff.2 ⟨htext, hlongest⟩
  rw [htext, tokens]
  split
  case h_1 hbad =>
    rw [hl] at hbad
    cases hbad
  case h_2 hl' =>
    obtain rfl := Except.ok.inj (hl.symm.trans hl')
    simp only [hrest]
    cases kind <;> rfl

theorem tokens_of_splits (h : Splits start cs ts) : tokens start cs = .ok ts := by
  induction h with
  | nil start => rw [tokens]
  | trivia hlongest _ ih => exact tokens_of_longest hlongest ih
  | token hlongest _ ih => exact tokens_of_longest hlongest ih

/-- The tokens of a text are those of its split into longest matches, and there are none where it has no
split. -/
theorem tokens_eq_ok_iff : tokens start cs = .ok ts ↔ Splits start cs ts :=
  ⟨splits_of_tokens, tokens_of_splits⟩

end Tokens

end Mold
end DdlSchema
