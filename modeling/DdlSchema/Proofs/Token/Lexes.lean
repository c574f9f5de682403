import DdlSchema.Proofs.Token.Lexeme
import Mathlib.Data.List.Basic
import Mathlib.Data.List.Induction

/-! A text as a row of lexemes, each with its bytes. The tokens of a text are those of its only row, and
blanks around the text change nothing of it. -/
namespace DdlSchema

/-- What a token is, with its bytes in a text of which its own begins at `start`. -/
def Token.placed (start : Nat) (t : Token) : TokenKind × Extent := (t.kind, t.span.shift start)

namespace Lexer

attribute [local irreducible] lexeme

variable {cfg : LexerConfig} {kind : Option TokenKind} {taken rest : List Char} {n : Nat}

/-- The lexemes of a text that begins at some byte, and the tokens among them. -/
inductive Lexes (cfg : LexerConfig) : Nat → List Char → List (TokenKind × Extent) → Prop
  | nil (n : Nat) : Lexes cfg n [] []
  | cons {n : Nat} {kind : Option TokenKind} {taken rest : List Char}
      {ts : List (TokenKind × Extent)} (hpiece : Piece cfg kind taken rest)
      (hrest : Lexes cfg (n + byteSize taken) rest ts) :
      Lexes cfg n (taken ++ rest) (kind.toList.map (·, ⟨n, n + byteSize taken⟩) ++ ts)

section Tokens

theorem tokens_of_lexeme (p : Place) {cs : List Char} {l : Lexeme}
    (h : lexeme cfg cs = some (.ok l)) :
    tokens cfg p cs = (tokens cfg (p.after l.taken) l.rest).map
      (l.kind.toList.map (⟨·, p.span l.taken⟩) ++ ·) := by
  cases cs with
  | nil => exact absurd (List.append_eq_nil_iff.1 (lexeme_splits h).1).1 (lexeme_splits h).2
  | cons c cs =>
    rw [tokens_cons, h]
    dsimp only
    cases tokens cfg (p.after l.taken) l.rest with
    | error e => rfl
    | ok ts => cases l.kind <;> rfl

theorem tokens_of_lexes (hplain : cfg.IsPlain) {cs : List Char} {xs : List (TokenKind × Extent)}
    (h : Lexes cfg n cs xs) (start : Nat) (p : Place) (hn : n = p.offset + start) :
    (tokens cfg p cs).map (List.map (Token.placed start)) = .ok xs := by
  induction h generalizing p with
  | nil => rw [tokens_nil]; rfl
  | @cons n kind taken rest xs hpiece _ ih =>
    have hnext : n + byteSize taken = (p.after taken).offset + start := by
      simp only [Place.after]
      omega
    have htokens := ih (p.after taken) hnext
    rw [tokens_of_lexeme p (lexeme_of_piece hplain hpiece)]
    cases hts : tokens cfg (p.after taken) rest with
    | error e =>
      rw [hts] at htokens
      cases htokens
    | ok ts =>
      rw [hts] at htokens
      obtain rfl : ts.map (Token.placed start) = xs := Except.ok.inj htokens
      have hspan : (p.span taken).shift start = ⟨n, n + byteSize taken⟩ := by
        simp only [Place.span, Extent.shift, Extent.mk.injEq]
        omega
      cases kind with
      | none => rfl
      | some k => exact congrArg (fun e => Except.ok ((k, e) :: ts.map (Token.placed start))) hspan

theorem lexes_of_tokens {cs : List Char} {p : Place} {ts : List Token}
    (h : tokens cfg p cs = .ok ts) (start : Nat) :
    Lexes cfg (p.offset + start) cs (ts.map (Token.placed start)) := by
  fun_induction kinds cfg cs generalizing p ts with
  | case1 =>
    rw [tokens_nil] at h
    obtain rfl := Except.ok.inj h
    exact .nil _
  | case2 c cs l hl ih =>
    rw [tokens_of_lexeme p hl] at h
    cases hts : tokens cfg (p.after l.taken) l.rest with
    | error e =>
      rw [hts] at h
      cases h
    | ok more =>
      rw [hts] at h
      obtain rfl : l.kind.toList.map (fun k => (⟨k, p.span l.taken⟩ : Token)) ++ more = ts :=
        Except.ok.inj h
      have hmore := ih hts
      have hoffset : (p.after l.taken).offset + start = p.offset + start + byteSize l.taken := by
        simp only [Place.after]
        omega
      rw [hoffset] at hmore
      have hlexes := Lexes.cons (piece_of_lexeme hl) hmore
      rw [(lexeme_splits hl).1] at hlexes
      have hspan : (p.span l.taken).shift start =
          ⟨p.offset + start, p.offset + start + byteSize l.taken⟩ := by
        simp only [Place.span, Extent.shift, Extent.mk.injEq, true_and]
        omega
      rw [← hspan] at hlexes
      simpa [Token.placed, Function.comp_def] using hlexes
  | case3 c cs hl =>
    exfalso
    rw [tokens_cons] at h
    split at h
    · cases h
    · cases h
    · rename_i l hl'
      exact hl l hl'

end Tokens

section Changes

theorem Piece.taken_ne_nil (h : Piece cfg kind taken rest) : taken ≠ [] := by
  cases h with
  | integer _ _ hne => simp [hne]
  | _ => nofun

theorem Piece.of_punctuation {c : Char} (h : Piece cfg (some (.punctuation c)) taken rest) :
    taken = [c] ∧ cfg.isPunctuation c = true := by
  cases h with
  | punctuation _ hc => exact ⟨rfl, hc⟩

theorem Lexes.eq_nil {xs : List (TokenKind × Extent)} (h : Lexes cfg n [] xs) : xs = [] := by
  generalize htext : [] = text at h
  cases h with
  | nil => rfl
  | cons hpiece _ => exact absurd (List.append_eq_nil_iff.1 htext.symm).1 hpiece.taken_ne_nil

theorem endsRun_of_head {rest' : List Char} (hhead : ∀ c ∈ rest'.head?, c ∈ rest.head?)
    (h : cfg.endsRun rest = true) : cfg.endsRun rest' = true := by
  cases rest' with
  | nil => rfl
  | cons c rest' =>
    obtain ⟨cs, rfl⟩ : ∃ cs, rest = c :: cs := by
      cases rest with
      | nil => cases hhead c rfl
      | cons d cs =>
        obtain rfl := Option.some.inj (hhead c rfl)
        exact ⟨cs, rfl⟩
    exact h

/-- A lexeme stays one in front of a text that begins as the old one did, or is empty. -/
theorem Piece.transfer {cfg' : LexerConfig} {rest' : List Char} (h : Piece cfg kind taken rest)
    (hdelimiters : cfg'.delimiters = cfg.delimiters) (hcomments : cfg'.comments = cfg.comments)
    (hkind : ∀ c, kind = some (.punctuation c) → cfg'.isPunctuation c = true)
    (hhead : ∀ c ∈ rest'.head?, c ∈ rest.head?)
    (hends : cfg.endsRun rest = true → cfg'.endsRun rest' = true) : Piece cfg' kind taken rest' := by
  cases h with
  | blanks hb hbs hrest => exact .blanks hb hbs fun c hc => hrest c (hhead c hc)
  | lineComment hcfg hbody hrest =>
    exact .lineComment (hcomments.trans hcfg) hbody fun c hc => hrest c (hhead c hc)
  | blockComment _ hcfg hbody => exact .blockComment _ (hcomments.trans hcfg) hbody
  | word hc hw hrest => exact .word hc hw (hends hrest)
  | punctuation _ hc => exact .punctuation _ (hkind _ rfl)
  | integer hsgn hds hne hvalue hrest => exact .integer hsgn hds hne hvalue (hends hrest)
  | string body hrest => exact .string body (hends hrest)
  | @identifier d _ _ hd hne hname hrest =>
    have hd' : cfg'.delimiter? d.opening = some d := by
      rw [LexerConfig.delimiter?, hdelimiters]
      exact hd
    exact .identifier hd' hne hname (hends hrest)

end Changes

section Blanks

variable (hplain : cfg.IsPlain) {xs : List (TokenKind × Extent)}

/-- Blanks in front of a row of lexemes. -/
theorem Lexes.blanks {bs : List Char} (hbs : ∀ c ∈ bs, Text.isBlank c = true)
    (hhead : ∀ c ∈ rest.head?, Text.isBlank c = false) (h : Lexes cfg (n + byteSize bs) rest xs) :
    Lexes cfg n (bs ++ rest) xs := by
  cases bs with
  | nil => exact h
  | cons b bs =>
    have hpiece : Piece cfg none (b :: bs) rest :=
      .blanks (hbs b List.mem_cons_self) (fun c hc => hbs c (List.mem_cons_of_mem b hc)) hhead
    exact .cons hpiece h

include hplain

theorem Lexes.tail {b : Char} {cs : List Char} (hb : Text.isBlank b = true)
    (h : Lexes cfg n (b :: cs) xs) : Lexes cfg (n + b.utf8Size) cs xs := by
  generalize htext : b :: cs = text at h
  cases h with
  | nil => cases htext
  | @cons _ kind taken rest xs hpiece hrest =>
    have hlexeme := lexeme_of_piece hplain hpiece
    rw [← htext, lexeme_blank hb cs] at hlexeme
    obtain ⟨rfl, rfl, rfl⟩ : none = kind ∧ b :: cs.takeWhile Text.isBlank = taken ∧
        cs.dropWhile Text.isBlank = rest := by simpa using hlexeme
    rw [byteSize_cons, ← Nat.add_assoc] at hrest
    have hblanks := Lexes.blanks (of_takeWhile cs).1 (of_takeWhile cs).2 hrest
    rwa [List.takeWhile_append_dropWhile] at hblanks

theorem Lexes.trimStart {cs : List Char} (h : Lexes cfg n cs xs) :
    Lexes cfg (n + byteSize (cs.takeWhile Text.isWhiteSpace)) (Text.trimStart cs) xs := by
  induction cs generalizing n with
  | nil => exact h
  | cons c cs ih =>
    by_cases hc : Text.isWhiteSpace c = true
    · have hblank : Text.isBlank c = true := by simp [Text.isBlank, hc]
      have htail := ih (h.tail hplain hblank)
      rw [Text.trimStart, List.takeWhile_cons_of_pos hc, List.dropWhile_cons_of_pos hc,
        byteSize_cons, ← Nat.add_assoc]
      exact htail
    · rw [Text.trimStart, List.takeWhile_cons_of_neg hc, List.dropWhile_cons_of_neg hc]
      exact h

/-- No token ends in a blank. -/
theorem Piece.isBlank_last {k : TokenKind} {b : Char} {cs : List Char}
    (h : Piece cfg (some k) (cs ++ [b]) rest) : Text.isBlank b = false := by
  generalize htaken : cs ++ [b] = taken at h
  have hlast (front : List Char) {c : Char} (heq : cs ++ [b] = front ++ [c]) : b = c :=
    (List.append_singleton_inj.1 heq).2
  cases h with
  | @word c w _ hc hw _ =>
    have hmem : b ∈ c :: w := by
      rw [← htaken]
      simp
    rcases List.mem_cons.1 hmem with rfl | hmem
    · exact isBlank_of_continuesWord (continuesWord_of_startsWord hc)
    · exact isBlank_of_continuesWord (hw b hmem)
  | @punctuation c _ hc =>
    obtain rfl := hlast [] htaken
    exact eq_false_of_mem (by decide) (hplain b hc)
  | @integer sgn ds _ n _ hds hne _ _ =>
    rcases List.eq_nil_or_concat' ds with rfl | ⟨front, d, rfl⟩
    · exact absurd rfl hne
    · rw [← List.append_assoc] at htaken
      obtain rfl := hlast _ htaken
      exact isBlank_of_continuesWord (continuesWord_of_isDigit (hds b (by simp)))
  | string body _ =>
    obtain rfl := hlast ('\'' :: doubled '\'' body) htaken
    rfl
  | @identifier d name _ _ _ _ _ =>
    obtain rfl := hlast (d.opening :: inside d name) htaken
    cases d <;> rfl

omit hplain in
/-- Of trivia only blanks and line comments end in a blank, and then they may lose it. -/
theorem Piece.dropLast {b : Char} {cs : List Char} (hb : Text.isBlank b = true)
    (h : Piece cfg none (cs ++ [b]) rest) : cs = [] ∨ Piece cfg none cs [] := by
  generalize htaken : cs ++ [b] = taken at h
  have hlast (front : List Char) {c : Char} (heq : cs ++ [b] = front ++ [c]) :
      cs = front ∧ b = c := List.append_singleton_inj.1 heq
  cases h with
  | @blanks c bs _ hc hbs _ =>
    cases cs with
    | nil => exact .inl rfl
    | cons d cs =>
      obtain ⟨rfl, rfl⟩ := List.cons.inj htaken
      exact .inr (.blanks hc (fun c hc => hbs c (List.mem_append_left [b] hc)) nofun)
  | @lineComment body _ hcfg hbody _ =>
    rcases List.eq_nil_or_concat' body with rfl | ⟨front, c, rfl⟩
    · obtain ⟨-, rfl⟩ := hlast ['-'] htaken
      cases hb
    · obtain ⟨rfl, rfl⟩ := hlast ('-' :: '-' :: front) htaken
      exact .inr (.lineComment hcfg (fun hc => hbody (List.mem_append_left [b] hc)) nofun)
  | @blockComment body _ hcfg hbody =>
    obtain ⟨front, rfl, -⟩ := exists_body_of_blockComment hbody
    obtain ⟨-, rfl⟩ := hlast ('/' :: '*' :: (front ++ ['*'])) (by simpa using htaken)
    cases hb

theorem Lexes.dropLast {b : Char} {cs : List Char} (hb : Text.isBlank b = true)
    (h : Lexes cfg n (cs ++ [b]) xs) : Lexes cfg n cs xs := by
  -- The blank belongs to the last lexeme; each lexeme before it keeps what stands behind it, or its end.
  generalize htext : cs ++ [b] = text at h
  induction h generalizing cs with
  | nil => simp at htext
  | @cons n kind taken rest xs hpiece hrest ih =>
    rcases List.eq_nil_or_concat' rest with rfl | ⟨front, c, rfl⟩
    · rw [List.append_nil] at htext
      subst htext
      obtain rfl := hrest.eq_nil
      have hkind : kind = none := by
        cases kind with
        | none => rfl
        | some k => exact nomatch hb.symm.trans (hpiece.isBlank_last hplain)
      subst hkind
      rcases hpiece.dropLast hb with rfl | hpiece'
      · exact .nil n
      · have hlexes : Lexes cfg n (cs ++ []) ([] ++ []) := .cons hpiece' (.nil _)
        rwa [List.append_nil] at hlexes
    · rw [← List.append_assoc] at htext
      obtain ⟨rfl, hlast⟩ := List.append_inj' htext rfl
      obtain rfl := (List.cons.inj hlast).1
      have hhead : ∀ c ∈ front.head?, c ∈ (front ++ [b]).head? := by
        intro c hc
        cases front with
        | nil => cases hc
        | cons d front => exact hc
      have hpunctuation : ∀ c, kind = some (.punctuation c) → cfg.isPunctuation c = true := by
        rintro c rfl
        exact hpiece.of_punctuation.2
      exact .cons (hpiece.transfer rfl rfl hpunctuation hhead (endsRun_of_head hhead)) (ih rfl)

theorem Lexes.trimEnd {cs : List Char} (h : Lexes cfg n cs xs) :
    Lexes cfg n (Text.trimEnd cs) xs := by
  induction cs using List.reverseRecOn with
  | nil => exact h
  | append_singleton cs c ih =>
    rw [Text.trimEnd, List.reverse_concat]
    by_cases hc : Text.isWhiteSpace c = true
    · have hblank : Text.isBlank c = true := by simp [Text.isBlank, hc]
      rw [List.dropWhile_cons_of_pos hc]
      exact ih (h.dropLast hplain hblank)
    · rw [List.dropWhile_cons_of_neg hc, ← List.reverse_concat, List.reverse_reverse]
      exact h

end Blanks

end Lexer
end DdlSchema
