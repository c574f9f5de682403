import DdlSchema.Proofs.Statement.Outside
import DdlSchema.Proofs.Statement.Tokens
import DdlSchema.Proofs.Token.Reach
import DdlSchema.Proofs.Token.Scan

/-! Whole scripts, read by the lexer with the separator as punctuation. It gets through a script where
it gets through the statements of the script, but for a block comment that nothing closes: the splitter
drops that with the blanks. -/
namespace DdlSchema
namespace Statement

open Lexer (Piece ReadsTo Scans)

attribute [local irreducible] Lexer.lexeme

variable {cfg : LexerConfig} {n : Nat}

/-- Whether white space follows a text, and then a separator, which ends the segment of the text, or
nothing. -/
def EndsSegment (core trail behind : List Char) : Prop :=
  (∀ c ∈ trail, Text.isWhiteSpace c = true) ∧
    (behind = trail ∨ ∃ rest, behind = trail ++ ';' :: rest ∧
      (Segment.read .code (core ++ behind)).1.text = core ++ trail)

section Ends

variable {core front trail behind : List Char}

theorem EndsSegment.head (h : EndsSegment core trail behind) :
    ∀ c ∈ behind.head?, Text.isWhiteSpace c = true ∨ c = ';' := by
  obtain ⟨htrail, rfl | ⟨rest, rfl, -⟩⟩ := h
  · have hhead : ∀ c ∈ (behind ++ []).head?, Text.isWhiteSpace c = true ∨ c = ';' :=
      head_of_trail htrail nofun
    rwa [List.append_nil] at hhead
  · exact head_of_trail htrail (by simp)

theorem endsRun_of_behind (h : ∀ c ∈ behind.head?, Text.isWhiteSpace c = true ∨ c = ';') :
    cfg.separated.endsRun behind = true := by
  cases behind with
  | nil => rfl
  | cons c behind =>
    rw [LexerConfig.endsRun, isPunctuation_separated]
    rcases h c rfl with hc | rfl
    · simp [Text.isBlank, hc]
    · simp

/-- What is read as it stands may be left off in front. -/
theorem EndsSegment.of_passes {isCode : Bool} (h : EndsSegment (front ++ core) trail behind)
    (hpasses : Segment.Passes front isCode (core ++ behind)) : EndsSegment core trail behind := by
  refine ⟨h.1, h.2.imp_right ?_⟩
  rintro ⟨rest, rfl, htext⟩
  refine ⟨rest, rfl, ?_⟩
  rw [List.append_assoc, hpasses, Segment.push_text, List.append_assoc] at htext
  exact List.append_cancel_left htext

/-- A line comment takes a separator along. -/
theorem text_read_lineComment {body : List Char} (hbody : '\n' ∉ body) (htrail : '\n' ∉ trail)
    (rest : List Char) :
    (Segment.read .code ('-' :: '-' :: body ++ (trail ++ ';' :: rest))).1.text ≠
      '-' :: '-' :: body ++ trail := by
  intro h
  have hread := Segment.read_lineComment_cases (body ++ (trail ++ ';' :: rest))
  rw [List.cons_append, List.cons_append, Segment.read, Segment.push_text] at h
  rcases hread with ⟨-, hread⟩ | ⟨line, more, -, -, hread⟩
  · rw [hread] at h
    simp at h
  · rw [hread, Segment.push_text] at h
    have hmem : '\n' ∈ '-' :: '-' :: body ++ trail := by
      rw [← h]
      simp
    simp [hbody, htrail] at hmem

/-- A separator that ends the segment of a line comment stands behind its newline. -/
theorem EndsSegment.lineComment {body : List Char} (hbody : '\n' ∉ body)
    (h : EndsSegment ('-' :: '-' :: body) trail behind) :
    ∃ bs rest, behind = bs ++ rest ∧ (∀ b ∈ bs, Text.isBlank b = true ∧ b ≠ '\n') ∧
      ∀ c ∈ rest.head?, c = '\n' := by
  obtain ⟨htrail, hbehind⟩ := h
  obtain ⟨hline, hend⟩ := Lexer.of_takeWhile (p := (· != '\n')) trail
  have hsplit := List.takeWhile_append_dropWhile (p := (· != '\n')) (l := trail)
  have hblank : ∀ b ∈ trail.takeWhile (· != '\n'), Text.isBlank b = true ∧ b ≠ '\n' := by
    intro b hb
    have hwhite := htrail b ((List.takeWhile_prefix _).subset hb)
    exact ⟨by simp [Text.isBlank, hwhite], by simpa using hline b hb⟩
  have hnewline : ∀ c ∈ (trail.dropWhile (· != '\n')).head?, c = '\n' :=
    fun c hc => by simpa using hend c hc
  rcases hbehind with rfl | ⟨rest, rfl, htext⟩
  · exact ⟨_, _, hsplit.symm, hblank, hnewline⟩
  · refine ⟨trail.takeWhile (· != '\n'), trail.dropWhile (· != '\n') ++ ';' :: rest, ?_, hblank, ?_⟩
    · rw [← List.append_assoc, hsplit]
    · cases hdrop : trail.dropWhile (· != '\n') with
      | nil =>
        have htrailing : '\n' ∉ trail := by
          rw [hdrop, List.append_nil] at hsplit
          exact fun hmem => (hblank _ (hsplit.symm ▸ hmem)).2 rfl
        exact absurd htext (text_read_lineComment hbody htrailing rest)
      | cons c more =>
        rw [hdrop] at hnewline
        exact hnewline

end Ends

section Settings

variable (hcomments : cfg.comments = true) (hplain : cfg.IsPlain)

include hcomments hplain

/-- The lexer gets through gaps, whatever stands behind them. -/
theorem readsTo_gap {gap : List Char} (hgap : IsGap gap) (rest : List Char) :
    ReadsTo cfg.separated gap rest := by
  induction hgap with
  | nil => exact .nil rest
  | @white c cs hc _ ih =>
    have hblank : Text.isBlank c = true := by simp [Text.isBlank, hc]
    have hfirst : ReadsTo cfg.separated [c] (cs ++ rest) :=
      .of_eq (Lexer.tokens_blank hblank (cs ++ rest))
    exact hfirst.append ih
  | @separator cs _ ih =>
    have hsep : cfg.separated.isPunctuation ';' = true := by simp [isPunctuation_separated]
    have hfirst : ReadsTo cfg.separated [';'] (cs ++ rest) :=
      .lexeme (Lexer.lexeme_punctuation (isPlain_separated hplain) hsep (cs ++ rest))
    exact hfirst.append ih
  | @comment c cs hc _ ih =>
    have hcfg : cfg.separated.comments = true := hcomments
    have hfirst : ReadsTo cfg.separated c (cs ++ rest) :=
      .of_eq (Lexer.tokens_comment hcfg hc (cs ++ rest))
    exact hfirst.append ih

/-- A line comment at the end needs no newline. -/
theorem readsTo_last {gap : List Char} (hgap : IsGap (gap ++ ['\n'])) :
    ReadsTo cfg.separated gap [] := by
  intro p
  obtain ⟨ts, hts⟩ := readsTo_gap hcomments hplain hgap [] p
  rw [List.append_nil, Lexer.tokens_nil] at hts
  have hlexes := Lexer.lexes_of_tokens hts 0
  -- The newline is the last character, and a blank may be left off at the end.
  have hshort := hlexes.dropLast (isPlain_separated hplain) (by decide)
  have htokens := Lexer.tokens_of_lexes (isPlain_separated hplain) hshort 0 p rfl
  rw [List.append_nil, Lexer.tokens_nil]
  cases hgap : Lexer.tokens cfg.separated p gap with
  | error e =>
    rw [hgap] at htokens
    cases htokens
  | ok us => exact ⟨us, by simp [Except.map]⟩

omit hcomments

/-- The lexer gets through the last lexeme of a segment. A line comment has its newline among the white
space, or the segment is the last one. -/
theorem readsTo_piece {kind : Option TokenKind} {taken trail behind : List Char}
    (h : Piece cfg kind taken []) (hends : EndsSegment taken trail behind) :
    ReadsTo cfg.separated taken behind := by
  cases kind with
  | some k =>
    have hkind : ∀ c, k = .punctuation c → cfg.separated.isPunctuation c = true := by
      rintro c rfl
      rw [isPunctuation_separated, h.of_punctuation.2, Bool.true_or]
    have hpiece : Piece cfg.separated (some k) taken behind :=
      h.transfer_token rfl hkind (endsRun_of_behind hends.head)
    exact .lexeme (Lexer.lexeme_of_piece (isPlain_separated hplain) hpiece)
  | none =>
    cases h with
    | blanks hb hbs _ =>
      refine .of_eq (Lexer.tokens_blanks (fun c hc => ?_) behind)
      rcases List.mem_cons.1 hc with rfl | hc
      · exact hb
      · exact hbs c hc
    | blockComment _ hcfg hbody =>
      exact .lexeme (Lexer.lexeme_of_trivia (.blockComment behind hcfg hbody))
    | lineComment hcfg hbody _ =>
      obtain ⟨bs, rest, rfl, hbs, hrest⟩ := hends.lineComment hbody
      have hseparated : cfg.separated.comments = true := hcfg
      exact .of_eq (Lexer.tokens_lineComment hseparated hbody hbs hrest)

/-- The lexer gets through a statement in its script where it gets through it alone. -/
theorem readsTo_statement {core : List Char} {p : Place} {ts : List Token}
    (h : Scans cfg [] p core ts) (hsep : cfg.isPunctuation ';' = false) {trail behind : List Char}
    (hends : EndsSegment core trail behind) : ReadsTo cfg.separated core behind := by
  induction h with
  | nil => exact .nil behind
  | @cons p kind taken front ts hlexeme _ ih =>
    have hpiece := Lexer.piece_of_lexeme hlexeme
    rw [List.append_nil] at hpiece
    -- Only the last lexeme has something else behind it in the script than in the statement alone.
    cases front with
    | nil =>
      rw [List.append_nil] at hends ⊢
      exact readsTo_piece hplain hpiece hends
    | cons c front =>
      have hkind : ∀ d, kind = some (.punctuation d) → cfg.separated.isPunctuation d = true := by
        rintro d rfl
        rw [isPunctuation_separated, hpiece.of_punctuation.2, Bool.true_or]
      have hne : kind ≠ some (.punctuation ';') := by
        rintro rfl
        rw [hpiece.of_punctuation.2] at hsep
        cases hsep
      have hmoved : Piece cfg.separated kind taken (c :: front ++ behind) :=
        hpiece.transfer rfl rfl hkind (fun d hd => hd) fun hruns => by
          rw [List.cons_append]
          rw [LexerConfig.endsRun] at hruns ⊢
          rw [isPunctuation_separated, ← Bool.or_assoc, hruns, Bool.true_or]
      have hfirst : ReadsTo cfg.separated taken (c :: front ++ behind) :=
        .lexeme (Lexer.lexeme_of_piece (isPlain_separated hplain) hmoved)
      obtain ⟨isCode, hpasses, -⟩ :=
        Segment.passes_piece (isPlain_separated hplain) hmoved hne
      exact hfirst.append (ih (hends.of_passes hpasses))

end Settings

section Covering

variable {cs behind : List Char} {ss : List Statement}

/-- A text that begins at some byte with its statements, all of it but for a block comment that nothing
closes. The lexer gets through where it gets through the statements. -/
def Covers (cfg : LexerConfig) (n : Nat) (cs : List Char) (ss : List Statement) : Prop :=
  ∃ front unclosed, cs = front ++ unclosed ∧ Laid n front ss ∧
    (unclosed = [] ∨ IsUnclosed unclosed) ∧
    ((∀ s ∈ ss, ∃ ts, tokenize cfg s.text = .ok ts) → ReadsTo cfg.separated front unclosed)

variable (hcomments : cfg.comments = true) (hplain : cfg.IsPlain)

include hcomments hplain

theorem Covers.gap {gap : List Char} (hgap : IsGap gap) (h : Covers cfg (n + byteSize gap) cs ss) :
    Covers cfg n (gap ++ cs) ss := by
  obtain ⟨front, unclosed, rfl, hlaid, hunclosed, hreads⟩ := h
  refine ⟨gap ++ front, unclosed, (List.append_assoc ..).symm, hlaid.gap_append hgap, hunclosed,
    fun hss => ?_⟩
  exact (readsTo_gap hcomments hplain hgap (front ++ unclosed)).append (hreads hss)

theorem covers_last {gap : List Char} (hgap : IsGap (gap ++ ['\n'])) : Covers cfg n gap [] :=
  ⟨gap, [], (List.append_nil gap).symm, .last hgap, .inl rfl,
    fun _ => readsTo_last hcomments hplain hgap⟩

theorem covers_unclosed {gap rest : List Char} (hgap : IsGap gap) (hrest : IsUnclosed rest) :
    Covers cfg n (gap ++ rest) [] :=
  ⟨gap, rest, rfl, .last hgap.newline, .inr hrest, fun _ => readsTo_gap hcomments hplain hgap rest⟩

omit hcomments in
theorem Covers.statement (hsep : cfg.isPunctuation ';' = false) {s : Statement} {trail : List Char}
    (hne : s.text.toList ≠ []) (hends : EndsSegment s.text.toList trail behind)
    (h : Covers cfg s.stop behind ss) : Covers cfg s.start (s.text.toList ++ behind) (s :: ss) := by
  obtain ⟨front, unclosed, rfl, hlaid, hunclosed, hreads⟩ := h
  have hhead : ∀ c ∈ front.head?, Text.isWhiteSpace c = true ∨ c = ';' := by
    intro c hc
    obtain ⟨more, rfl⟩ := List.head?_eq_some_iff.1 hc
    exact hends.head c rfl
  have hfront : Laid s.start ([] ++ (s.text.toList ++ front)) (s :: ss) :=
    .statement .nil hne rfl hhead hlaid
  refine ⟨s.text.toList ++ front, unclosed, (List.append_assoc ..).symm, hfront, hunclosed,
    fun hss => ?_⟩
  obtain ⟨hs, hss⟩ := List.forall_mem_cons.1 hss
  obtain ⟨ts, hts⟩ := hs
  have hstatement := readsTo_statement hplain (Lexer.scans_of_tokens hts) hsep hends
  exact hstatement.append (hreads hss)

end Covering

section Segments

variable (hcomments : cfg.comments = true) (hplain : cfg.IsPlain)
  (hsep : cfg.isPunctuation ';' = false)

include hcomments hplain hsep

/-- A segment with code is a statement. -/
theorem Covers.segment {text more : List Char} {ss : List Statement}
    (hread : (Segment.read .code (text ++ more)).1 = ⟨text, true⟩)
    (hmore : more = [] ∨ ∃ rest, more = ';' :: rest)
    (h : Covers cfg (n + byteSize text) more ss) :
    Covers cfg n (text ++ more) (Segment.trim n ⟨text, true⟩ :: ss) := by
  have hcode : (Segment.read .code (text ++ more)).1.hasCode = true := by rw [hread]
  have hne := Segment.trim_ne_nil hcode n
  rw [hread] at hne
  obtain ⟨lead, trail, hlead, htrail, htext, hstart⟩ := Segment.exists_trim ⟨text, true⟩ n
  generalize Segment.trim n ⟨text, true⟩ = s at hne htext hstart
  obtain rfl : text = lead ++ (s.text.toList ++ trail) := htext
  have hsegment : EndsSegment (lead ++ s.text.toList) trail (trail ++ more) := by
    refine ⟨htrail, hmore.imp (fun hnil => by rw [hnil, List.append_nil]) ?_⟩
    rintro ⟨rest, rfl⟩
    exact ⟨rest, rfl, by simpa using congrArg Segment.text hread⟩
  have hends := hsegment.of_passes (Segment.passes_white hlead _)
  have hstop : s.stop + byteSize trail = n + byteSize (lead ++ (s.text.toList ++ trail)) := by
    simp only [stop, hstart, byteSize_append, Nat.add_assoc]
  rw [← hstop] at h
  have hstatement := (h.gap hcomments hplain (.whites htrail)).statement hplain hsep hne hends
  rw [hstart] at hstatement
  have hcovers := hstatement.gap hcomments hplain (.whites hlead)
  simpa using hcovers

/-- Every text is covered by its statements. -/
theorem covers_segments (n : Nat) (cs : List Char) :
    Covers cfg n cs (ofSegments n (Segment.segments cs)) := by
  induction cs using Segment.segments_induction generalizing n with
  | last cs isCode hread =>
    rw [Segment.segments, hread]
    cases isCode with
    | false =>
      have hcodeless := Segment.codeless_read cs (by rw [hread])
      rw [hread] at hcodeless
      cases hcodeless with
      | gap hgap => exact covers_last hcomments hplain hgap.newline
      | last _ hgap => exact covers_last hcomments hplain hgap
      | unclosed _ htext hgap hrest =>
        obtain rfl : cs = _ := htext
        exact covers_unclosed hcomments hplain hgap hrest
    | true =>
      have hend : Covers cfg (n + byteSize cs) [] [] :=
        covers_last hcomments hplain (.white (by decide) .nil)
      have hcovers := hend.segment hcomments hplain hsep (by rw [List.append_nil, hread]) (.inl rfl)
      rwa [List.append_nil] at hcovers
  | separator cs isCode rest hread ih =>
    have hrest : Covers cfg (n + byteSize cs) ([';'] ++ rest)
        (ofSegments (n + byteSize cs + 1) (Segment.segments rest)) :=
      .gap hcomments hplain (.separator .nil) (ih (n + byteSize cs + 1))
    rw [Segment.segments, hread]
    cases isCode with
    | false =>
      have hcodeless := Segment.codeless_read (cs ++ ';' :: rest) (by rw [hread])
      rw [hread] at hcodeless
      cases hcodeless with
      | gap hgap => exact hrest.gap hcomments hplain hgap
      | last hmore => cases hmore
      | unclosed hmore => cases hmore
    | true =>
      exact hrest.segment hcomments hplain hsep (by rw [hread]) (.inr ⟨rest, rfl⟩)

end Segments

theorem tokens_unclosed (hcomments : cfg.comments = true) {cs : List Char} (h : IsUnclosed cs)
    (p : Place) : Lexer.tokens cfg p cs = .error ⟨.unterminatedComment, p.span cs⟩ := by
  obtain ⟨body, rfl, hbody⟩ := h
  have hcomment : Lexer.comment ('/' :: '*' :: body) =
      some (.error ⟨.unterminatedComment, '/' :: '*' :: body⟩) := by
    rw [Lexer.comment, Segment.blockComment_eq_none_iff.2 hbody]
  have hblank : ¬Text.isBlank '/' = true := by decide
  have htrivia : Lexer.trivia cfg ('/' :: '*' :: body) =
      some (.error ⟨.unterminatedComment, '/' :: '*' :: body⟩) := by
    rw [Lexer.trivia, List.takeWhile_cons_of_neg hblank]
    exact (if_pos hcomments).trans hcomment
  rw [Lexer.tokens_cons, Lexer.lexeme_eq, htrivia]
  rfl

/-- Outside of its statements a script has only white space, separators and whole comments, up to a
block comment that nothing closes and no statement holds. Where all statements can be read, so can the
script with its separators, unless there is such a comment: then just that is refused. -/
theorem split_covers_script (script : String) :
    ∃ front unclosed, script.toList = front ++ unclosed ∧ Laid 0 front (split script) ∧
      (unclosed = [] ∨ IsUnclosed unclosed) ∧
      ((∀ s ∈ split script, ∃ ts, tokenize Sqlite.lexer s.text = .ok ts) →
        (unclosed = [] → ∃ ts, tokenize Sqlite.lexer.separated script = .ok ts) ∧
        (unclosed ≠ [] → tokenize Sqlite.lexer.separated script =
          .error ⟨.unterminatedComment, (Place.start.after front).span unclosed⟩)) := by
  have hcovers : Covers Sqlite.lexer 0 script.toList (split script) :=
    covers_segments rfl Script.lexer_isPlain (by decide) 0 script.toList
  obtain ⟨front, unclosed, hscript, hlaid, hunclosed, hreads⟩ := hcovers
  refine ⟨front, unclosed, hscript, hlaid, hunclosed, fun hss => ?_⟩
  obtain ⟨ts, hts⟩ := hreads hss .start
  rw [tokenize, hscript, hts]
  refine ⟨?_, fun hne => ?_⟩
  · rintro rfl
    exact ⟨ts, by rw [Lexer.tokens_nil]; simp [Except.map]⟩
  · have hcomments : Sqlite.lexer.separated.comments = true := rfl
    rw [tokens_unclosed hcomments (hunclosed.resolve_left hne)]
    rfl

section Instance

/-- A comment without its end is no statement, and no script. -/
theorem split_unclosed : split "/* x" = [] ∧
    tokenize Sqlite.lexer.separated "/* x" = .error ⟨.unterminatedComment, ⟨⟨0, 4⟩, ⟨1, 1⟩⟩⟩ := by
  constructor <;> decide +kernel

/-- A statement, with a comment that holds a separator and one without its end behind it. -/
def openScript : String := "x; -- ;\n /* y"

theorem split_covers_openScript : split openScript = [⟨0, "x"⟩] ∧
    (∀ s ∈ split openScript, ∃ ts, tokenize Sqlite.lexer s.text = .ok ts) ∧
    ∃ front unclosed, openScript.toList = front ++ unclosed ∧ Laid 0 front [⟨0, "x"⟩] ∧
      IsUnclosed unclosed ∧ tokenize Sqlite.lexer.separated openScript =
        .error ⟨.unterminatedComment, (Place.start.after front).span unclosed⟩ := by
  have hsplit : split openScript = [⟨0, "x"⟩] := by decide
  have hread : ∀ s ∈ split openScript, ∃ ts, tokenize Sqlite.lexer s.text = .ok ts := by
    rw [hsplit, List.forall_mem_singleton]
    exact ⟨[⟨.word "x", ⟨⟨0, 1⟩, ⟨1, 1⟩⟩⟩], by decide +kernel⟩
  have hrefused : tokenize Sqlite.lexer.separated openScript =
      .error ⟨.unterminatedComment, ⟨⟨9, 13⟩, ⟨2, 2⟩⟩⟩ := by decide +kernel
  obtain ⟨front, unclosed, hscript, hlaid, hunclosed, htokens⟩ := split_covers_script openScript
  obtain ⟨hclosed, hopen⟩ := htokens hread
  rw [hsplit] at hlaid
  have hne : unclosed ≠ [] := by
    intro hnil
    obtain ⟨ts, hts⟩ := hclosed hnil
    rw [hrefused] at hts
    cases hts
  exact ⟨hsplit, hread, front, unclosed, hscript, hlaid, hunclosed.resolve_left hne, hopen hne⟩

end Instance

end Statement
end DdlSchema
