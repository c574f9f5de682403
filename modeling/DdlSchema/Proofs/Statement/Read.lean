import DdlSchema.Proofs.Token.Lexeme
import DdlSchema.Statement

/-! The reading of a script, lexeme by lexeme. All but the separator go into the segment that they stand
in, and what stands behind them is read in its own right. -/
namespace DdlSchema
namespace Statement
namespace Segment

open Lexer (Piece doubled inside startsWord continuesWord)

attribute [local simp] read

section Pushing

variable {s : Segment × List Segment}

@[simp] theorem push_push (cs ds : List Char) (b b' : Bool) :
    push cs b (push ds b' s) = push (cs ++ ds) (b || b') s := by
  simp [push, Bool.or_assoc]

@[simp] theorem push_text (cs : List Char) (b : Bool) : (push cs b s).1.text = cs ++ s.1.text := rfl

@[simp] theorem push_hasCode (cs : List Char) (b : Bool) :
    (push cs b s).1.hasCode = (b || s.1.hasCode) := rfl

@[simp] theorem push_more (cs : List Char) (b : Bool) : (push cs b s).2 = s.2 := rfl

end Pushing

/-- A mode that only one character can end takes all others as they come. -/
theorem read_until {m : Mode} {stop : Char}
    (hm : ∀ c cs, c ≠ stop → read m (c :: cs) = push [c] false (read m cs)) {body : List Char}
    (hbody : stop ∉ body) (rest : List Char) :
    read m (body ++ rest) = push body false (read m rest) := by
  induction body with
  | nil => rfl
  | cons c body ih =>
    rw [List.mem_cons, not_or] at hbody
    rw [List.cons_append, hm c _ (Ne.symm hbody.1), ih hbody.2, push_push]
    rfl

/-- Whether characters go into the segment they stand in, with what stands behind them read as code. -/
def Passes (cs : List Char) (isCode : Bool) (rest : List Char) : Prop :=
  read .code (cs ++ rest) = push cs isCode (read .code rest)

section Passing

variable {rest : List Char}

theorem Passes.nil (rest : List Char) : Passes [] false rest := rfl

theorem Passes.append {cs ds : List Char} {b b' : Bool} (hcs : Passes cs b (ds ++ rest))
    (hds : Passes ds b' rest) : Passes (cs ++ ds) (b || b') rest := by
  rw [Passes, List.append_assoc, hcs, hds, push_push]

/-- Whether a character means nothing to the reading of a script. -/
def IsOrdinary (c : Char) : Prop := c ∉ [';', '-', '/', '\'', '"', '`', '[']

instance (c : Char) : Decidable (IsOrdinary c) :=
  inferInstanceAs (Decidable (c ∉ [';', '-', '/', '\'', '"', '`', '[']))

theorem passes_ordinary {c : Char} (hc : IsOrdinary c) (rest : List Char) :
    Passes [c] (!Text.isWhiteSpace c) rest := by
  simp only [IsOrdinary, List.mem_cons, List.not_mem_nil, or_false, not_or] at hc
  obtain ⟨hsep, hminus, hslash, hquote, hdouble, hbacktick, hbracket⟩ := hc
  rw [Passes, List.singleton_append, read]
  · exact hsep
  · intro _ h
    exact absurd h hminus
  · intro _ h
    exact absurd h hslash
  · exact hquote
  · exact hdouble
  · exact hbacktick
  · exact hbracket

theorem passes_all {cs : List Char} (hcs : ∀ c ∈ cs, IsOrdinary c) (rest : List Char) :
    Passes cs (cs.any (!Text.isWhiteSpace ·)) rest := by
  induction cs with
  | nil => exact .nil rest
  | cons c cs ih =>
    have hfront := passes_ordinary (hcs c List.mem_cons_self) (cs ++ rest)
    exact hfront.append (ih fun d hd => hcs d (List.mem_cons_of_mem c hd))

/-- A sign that begins no comment. -/
theorem passes_minus (hrest : ∀ c ∈ rest.head?, c ≠ '-') : Passes ['-'] true rest := by
  rw [Passes, List.singleton_append, read]
  · rfl
  · nofun
  · intro cs _ hcs
    subst hcs
    exact hrest '-' rfl rfl
  all_goals nofun

end Passing

section Quotes

variable {quote : Char} (hquote : quote ∈ ['\'', '"', '`'])

include hquote

theorem read_quote (cs : List Char) :
    read .code (quote :: cs) = push [quote] true (read (.quoted quote) cs) := by
  simp only [List.mem_cons, List.not_mem_nil, or_false] at hquote
  rcases hquote with rfl | rfl | rfl <;> rw [read]

/-- A closing character written twice closes a run and opens the next. -/
theorem push_read_doubled (front body rest : List Char) :
    push front true (read (.quoted quote) (doubled quote body ++ quote :: rest)) =
      push (front ++ (doubled quote body ++ [quote])) true (read .code rest) := by
  -- Each doubled character marks the segment as code once more, which `front` has done before.
  induction body generalizing front with
  | nil => simp
  | cons c body ih =>
    by_cases hc : c = quote
    · subst hc
      have hnext := ih (front ++ [c] ++ [c])
      simp only [Lexer.doubled_cons, if_true, List.cons_append, List.nil_append]
      rw [read, if_pos rfl, read_quote hquote, push_push, push_push]
      simpa using hnext
    · have hnext := ih (front ++ [c])
      simp only [Lexer.doubled_cons, if_neg hc, List.cons_append, List.nil_append]
      rw [read, if_neg hc, push_push]
      simpa using hnext

theorem passes_doubled (body rest : List Char) :
    Passes (quote :: (doubled quote body ++ [quote])) true rest := by
  have hread := push_read_doubled hquote [quote] body rest
  rw [Passes, List.cons_append, List.append_assoc, read_quote hquote]
  exact hread

end Quotes

section Names

theorem read_bracketed {body : List Char} (hbody : ']' ∉ body) (rest : List Char) :
    read (.quoted ']') (body ++ ']' :: rest) = push (body ++ [']']) false (read .code rest) := by
  rw [read_until (fun c cs hc => by rw [read, if_neg hc]) hbody, read, if_pos rfl, push_push]
  rfl

/-- A name between its quotes. -/
theorem passes_delimited {d : Delimiter} {name : List Char}
    (hname : d.doubles = true ∨ d.closing ∉ name) (rest : List Char) :
    Passes (d.opening :: (inside d name ++ [d.closing])) true rest := by
  cases d with
  | brackets =>
    have hread := read_bracketed (hname.resolve_left nofun) rest
    have hopen : read .code ('[' :: (name ++ ']' :: rest)) =
        push ['['] true (read (.quoted ']') (name ++ ']' :: rest)) := by
      rw [read]
    rw [hread, push_push] at hopen
    rw [Passes, List.cons_append, List.append_assoc]
    exact hopen
  | doubleQuotes => exact passes_doubled (by decide) name rest
  | backticks => exact passes_doubled (by decide) name rest

end Names

section Comments

variable {rest : List Char}

/-- The newline behind a line comment counts as code, but it is white space. -/
theorem read_lineComment (hrest : ∀ c ∈ rest.head?, c = '\n') :
    read .lineComment rest = read .code rest := by
  cases rest with
  | nil => rw [read, read]
  | cons c rest =>
    obtain rfl : c = '\n' := hrest c rfl
    have hcode := passes_ordinary (c := '\n') (by decide) rest
    rw [Passes, List.singleton_append] at hcode
    rw [hcode, read]
    rfl

theorem read_lineComment_append {body : List Char} (hbody : '\n' ∉ body) (rest : List Char) :
    read .lineComment (body ++ rest) = push body false (read .lineComment rest) :=
  read_until (fun c cs hc => by rw [read, if_neg hc]) hbody rest

theorem passes_lineComment {body : List Char} (hbody : '\n' ∉ body)
    (hrest : ∀ c ∈ rest.head?, c = '\n') : Passes ('-' :: '-' :: body) false rest := by
  rw [Passes, List.cons_append, List.cons_append, read, read_lineComment_append hbody,
    read_lineComment hrest, push_push]
  rfl

theorem read_blockComment {cs body : List Char} (h : Lexer.blockComment cs = some (body, rest)) :
    read .blockComment cs = push body false (read .code rest) := by
  fun_induction Lexer.blockComment cs generalizing body rest with
  | case1 => cases h
  | case2 cs =>
    obtain ⟨rfl, rfl⟩ : ['*', '/'] = body ∧ cs = rest := by simpa using h
    rw [read]
  | case3 c cs hend ih =>
    simp only [Option.map_eq_some_iff, Prod.exists, Prod.mk.injEq] at h
    obtain ⟨b, r, hb, rfl, rfl⟩ := h
    rw [read, ih hb, push_push]
    · rfl
    · exact hend

theorem passes_blockComment {body : List Char}
    (hbody : Lexer.blockComment body = some (body, [])) (rest : List Char) :
    Passes ('/' :: '*' :: body) false rest := by
  have hread := read_blockComment (Lexer.blockComment_append_right hbody rest)
  rw [Passes, List.cons_append, List.cons_append, read, hread, push_push]
  rfl

end Comments

section Pieces

variable {cfg : LexerConfig} {kind : Option TokenKind} {taken rest : List Char}

theorem isOrdinary_of {p : Char → Bool} (hp : [';', '-', '/', '\'', '"', '`', '['].any p = false)
    {c : Char} (h : p c = true) : IsOrdinary c := by
  intro hmem
  rw [Lexer.eq_false_of_mem hp hmem] at h
  cases h

theorem isOrdinary_of_isBlank {c : Char} (h : Text.isBlank c = true) : IsOrdinary c :=
  isOrdinary_of (by decide) h

/-- White space is no code. -/
theorem passes_white {front : List Char} (hfront : ∀ c ∈ front, Text.isWhiteSpace c = true)
    (rest : List Char) : Passes front false rest := by
  have hordinary : ∀ c ∈ front, IsOrdinary c := fun c hc =>
    isOrdinary_of_isBlank (by simp [Text.isBlank, hfront c hc])
  have hpasses := passes_all hordinary rest
  have hnone : front.any (!Text.isWhiteSpace ·) = false := by
    simpa using hfront
  rwa [hnone] at hpasses

theorem isOrdinary_of_continuesWord {c : Char} (h : continuesWord c = true) : IsOrdinary c :=
  isOrdinary_of (by decide) h

/-- Words and blanks are read alike, but words are code. -/
theorem passes_words {c : Char} {w : List Char} (hw : ∀ d ∈ c :: w, continuesWord d = true)
    (rest : List Char) : Passes (c :: w) true rest := by
  have hpasses := passes_all (fun d hd => isOrdinary_of_continuesWord (hw d hd)) rest
  have hblank := Lexer.isBlank_of_continuesWord (hw c List.mem_cons_self)
  have hwhite : Text.isWhiteSpace c = false := by
    rw [Text.isBlank, Bool.or_eq_false_iff] at hblank
    exact hblank.1
  simpa [hwhite] using hpasses

theorem passes_integer {sgn ds : List Char} (hsgn : Lexer.IsSign sgn)
    (hds : ∀ d ∈ ds, d.isDigit = true) (hne : ds ≠ []) (rest : List Char) :
    Passes (sgn ++ ds) true rest := by
  obtain ⟨d, ds, rfl⟩ := List.exists_cons_of_ne_nil hne
  have hdigits := passes_words (fun c hc => Lexer.continuesWord_of_isDigit (hds c hc)) rest
  simp only [Lexer.IsSign, List.mem_cons, List.not_mem_nil, or_false] at hsgn
  rcases hsgn with rfl | rfl | rfl
  · exact hdigits
  · have hplus := passes_ordinary (c := '+') (by decide) (d :: ds ++ rest)
    exact hplus.append hdigits
  · have hminus : Passes ['-'] true (d :: ds ++ rest) := by
      refine passes_minus fun c hc => ?_
      obtain rfl := Option.some.inj hc
      rintro rfl
      cases hds '-' List.mem_cons_self
    exact hminus.append hdigits

/-- What is no separator goes into the segment that it stands in; tokens make it a statement. -/
theorem passes_piece (hplain : cfg.IsPlain) (h : Piece cfg kind taken rest)
    (hsep : kind ≠ some (.punctuation ';')) :
    ∃ isCode, Passes taken isCode rest ∧ (kind ≠ none → isCode = true) := by
  cases h with
  | @blanks b bs _ hb hbs hrest =>
    refine ⟨_, passes_all (fun c hc => isOrdinary_of_isBlank ?_) rest, nofun⟩
    rcases List.mem_cons.1 hc with rfl | hc
    · exact hb
    · exact hbs c hc
  | lineComment _ hbody hrest => exact ⟨_, passes_lineComment hbody hrest, nofun⟩
  | blockComment _ _ hbody => exact ⟨_, passes_blockComment hbody rest, nofun⟩
  | @word c w _ hc hw hrest =>
    refine ⟨true, passes_words (fun d hd => ?_) rest, fun _ => rfl⟩
    rcases List.mem_cons.1 hd with rfl | hd
    · exact Lexer.continuesWord_of_startsWord hc
    · exact hw d hd
  | @punctuation c _ hc =>
    have hne : c ≠ ';' := by
      rintro rfl
      exact hsep rfl
    have hmem := hplain c hc
    have hordinary : IsOrdinary c := by
      simp only [List.mem_cons, List.not_mem_nil, or_false] at hmem
      rcases hmem with rfl | rfl | rfl | rfl
      · decide
      · decide
      · decide
      · exact absurd rfl hne
    have hwhite : Text.isWhiteSpace c = false := Lexer.eq_false_of_mem (by decide) hmem
    exact ⟨_, passes_ordinary hordinary rest, fun _ => by rw [hwhite]; rfl⟩
  | integer hsgn hds hne => exact ⟨_, passes_integer hsgn hds hne rest, fun _ => rfl⟩
  | string body => exact ⟨_, passes_doubled (by decide) body rest, fun _ => rfl⟩
  | identifier _ _ hname => exact ⟨_, passes_delimited hname rest, fun _ => rfl⟩

/-- A character that is no separator begins the segment that it stands in. -/
theorem exists_push_read {c : Char} (hc : c ≠ ';') (rest : List Char) :
    ∃ cs isCode s, read .code (c :: rest) = push (c :: cs) isCode s := by
  generalize htext : c :: rest = text
  fun_cases read .code text
  case case1 => cases htext
  case case2 => exact absurd (List.cons.inj htext).1 hc
  all_goals
    obtain ⟨rfl, -⟩ := List.cons.inj htext
    exact ⟨_, _, _, rfl⟩

/-- The first segment begins as the text does, unless it is empty. -/
theorem head_text_read {c : Char} (hc : c ∈ (read .code rest).1.text.head?) :
    c ∈ rest.head? ∧ c ≠ ';' := by
  cases rest with
  | nil => cases hc
  | cons d rest =>
    by_cases hd : d = ';'
    · subst hd
      cases hc
    · obtain ⟨cs, isCode, s, hread⟩ := exists_push_read hd rest
      rw [hread, push_text] at hc
      obtain rfl : d = c := Option.some.inj hc
      exact ⟨rfl, hd⟩

end Pieces

section Segments

/-- The segments of a text, of which there is at least one. -/
def segments (cs : List Char) : List Segment := (read .code cs).1 :: (read .code cs).2

theorem segments_separator (cs : List Char) : segments (';' :: cs) = ⟨[], false⟩ :: segments cs := by
  rw [segments, read]
  rfl

/-- A text in front of a separator is the first segment. -/
theorem segments_append_separator {cs rest : List Char} {isCode : Bool}
    (h : Passes cs isCode (';' :: rest)) :
    segments (cs ++ ';' :: rest) = ⟨cs, isCode⟩ :: segments rest := by
  have hrest := segments_separator rest
  rw [segments] at hrest
  obtain ⟨hfirst, hmore⟩ := List.cons.inj hrest
  rw [segments, h, push_more, hmore, push, hfirst]
  simp

end Segments

end Segment

end Statement
end DdlSchema
