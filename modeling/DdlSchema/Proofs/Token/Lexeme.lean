import DdlSchema.Proofs.Token.Quoted
import Mathlib.Data.List.Infix
import Mathlib.Data.List.TakeWhile

/-! What a lexeme can be: nine forms of characters, each with what may stand behind it. The rules find
exactly these. -/
namespace DdlSchema
namespace Lexer

variable {cfg : LexerConfig}

/-- Characters that are a lexeme, a token or trivia, in front of a text. -/
inductive Piece (cfg : LexerConfig) : Option TokenKind → List Char → List Char → Prop
  | blanks {b : Char} {bs rest : List Char} (hb : Text.isBlank b = true)
      (hbs : ∀ c ∈ bs, Text.isBlank c = true) (hrest : ∀ c ∈ rest.head?, Text.isBlank c = false) :
      Piece cfg none (b :: bs) rest
  | lineComment {body rest : List Char} (hcfg : cfg.comments = true) (hbody : '\n' ∉ body)
      (hrest : ∀ c ∈ rest.head?, c = '\n') : Piece cfg none ('-' :: '-' :: body) rest
  | blockComment {body : List Char} (rest : List Char) (hcfg : cfg.comments = true)
      (hbody : blockComment body = some (body, [])) : Piece cfg none ('/' :: '*' :: body) rest
  | word {c : Char} {w rest : List Char} (hc : startsWord c = true)
      (hw : ∀ d ∈ w, continuesWord d = true) (hrest : cfg.endsRun rest = true) :
      Piece cfg (some (.word (.ofList (c :: w)))) (c :: w) rest
  | punctuation {c : Char} (rest : List Char) (hc : cfg.isPunctuation c = true) :
      Piece cfg (some (.punctuation c)) [c] rest
  | integer {sgn ds rest : List Char} {n : Int} (hsgn : IsSign sgn)
      (hds : ∀ d ∈ ds, d.isDigit = true) (hne : ds ≠ []) (hvalue : int64? sgn ds = some n)
      (hrest : cfg.endsRun rest = true) : Piece cfg (some (.integer n)) (sgn ++ ds) rest
  | string (body : List Char) {rest : List Char} (hrest : cfg.endsRun rest = true) :
      Piece cfg (some (.string (.ofList body))) ('\'' :: (doubled '\'' body ++ ['\''])) rest
  | identifier {d : Delimiter} {name rest : List Char} (hd : cfg.delimiter? d.opening = some d)
      (hne : name ≠ []) (hname : d.doubles = true ∨ d.closing ∉ name)
      (hrest : cfg.endsRun rest = true) :
      Piece cfg (some (.identifier (.ofList name) true))
        (d.opening :: (inside d name ++ [d.closing])) rest

section Comments

theorem endMark_infix_cons {c : Char} {body : List Char} :
    ['*', '/'] <:+: c :: (body ++ ['*']) ↔
      (c = '*' ∧ body.head? = some '/') ∨ ['*', '/'] <:+: body ++ ['*'] := by
  rw [List.infix_cons_iff, List.cons_prefix_cons]
  cases body <;> simp [List.cons_prefix_cons, eq_comm]

/-- A comment that is read whole ends at its first end mark. -/
theorem exists_body_of_blockComment {cs taken rest : List Char}
    (h : blockComment cs = some (taken, rest)) :
    ∃ body, taken = body ++ ['*', '/'] ∧ ¬['*', '/'] <:+: body ++ ['*'] := by
  fun_induction blockComment cs generalizing taken rest with
  | case1 => cases h
  | case2 cs =>
    obtain ⟨rfl, rfl⟩ : ['*', '/'] = taken ∧ cs = rest := by simpa using h
    exact ⟨[], rfl, by decide⟩
  | case3 c cs hend ih =>
    simp only [Option.map_eq_some_iff, Prod.exists, Prod.mk.injEq] at h
    obtain ⟨b, r, hb, rfl, rfl⟩ := h
    obtain ⟨body, rfl, hbody⟩ := ih hb
    refine ⟨c :: body, rfl, fun hmark => ?_⟩
    rcases endMark_infix_cons.1 hmark with ⟨rfl, hhead⟩ | hmark
    · obtain ⟨more, rfl⟩ := List.head?_eq_some_iff.1 hhead
      exact hend (more ++ ['*', '/'] ++ r) rfl (blockComment_append hb).symm
    · exact hbody hmark

/-- A comment ends at its first end mark, whatever stands behind it. -/
theorem blockComment_of_body {body : List Char} (h : ¬['*', '/'] <:+: body ++ ['*'])
    (rest : List Char) :
    blockComment (body ++ '*' :: '/' :: rest) = some (body ++ ['*', '/'], rest) := by
  induction body with
  | nil => rfl
  | cons c body ih =>
    rw [List.cons_append, endMark_infix_cons, not_or] at h
    rw [List.cons_append, blockComment, ih h.2]
    · rfl
    · intro ds hc hds
      refine h.1 ⟨hc, ?_⟩
      cases body with
      | nil => cases hds
      | cons d body =>
        obtain rfl : d = '/' := (List.cons.inj hds).1
        rfl

theorem blockComment_append_right {cs taken rest : List Char}
    (h : blockComment cs = some (taken, rest)) (more : List Char) :
    blockComment (cs ++ more) = some (taken, rest ++ more) := by
  obtain ⟨body, rfl, hbody⟩ := exists_body_of_blockComment h
  have hread := blockComment_of_body hbody (rest ++ more)
  rw [← blockComment_append h]
  simpa using hread

theorem blockComment_taken {cs taken rest : List Char}
    (h : blockComment cs = some (taken, rest)) : blockComment taken = some (taken, []) := by
  obtain ⟨body, rfl, hbody⟩ := exists_body_of_blockComment h
  exact blockComment_of_body hbody []

end Comments

section Soundness

theorem lexeme_blanks {b : Char} {bs rest : List Char} (hb : Text.isBlank b = true)
    (hbs : ∀ c ∈ bs, Text.isBlank c = true) (hrest : ∀ c ∈ rest.head?, Text.isBlank c = false) :
    lexeme cfg (b :: (bs ++ rest)) = some (.ok ⟨none, b :: bs, rest⟩) := by
  obtain ⟨htake, hdrop⟩ := takeWhile_append hbs hrest
  rw [lexeme_blank hb, htake, hdrop]

/-- Comments come before all that is no blank. -/
theorem lexeme_comment (hcfg : cfg.comments = true) {c : Char} {cs : List Char} {l : Lexeme}
    (hc : Text.isBlank c = false) (h : comment (c :: cs) = some (.ok l)) :
    lexeme cfg (c :: cs) = some (.ok l) := by
  have hblank : ¬Text.isBlank c = true := by rw [hc]; nofun
  have htrivia : trivia cfg (c :: cs) = some (.ok l) := by
    rw [trivia, List.takeWhile_cons_of_neg hblank]
    exact (if_pos hcfg).trans h
  rw [lexeme_eq, htrivia]
  rfl

/-- Trivia is found where it stands, whatever the settings have for punctuation. -/
theorem lexeme_of_trivia {taken rest : List Char} (h : Piece cfg none taken rest) :
    lexeme cfg (taken ++ rest) = some (.ok ⟨none, taken, rest⟩) := by
  cases h with
  | blanks hb hbs hrest => exact lexeme_blanks hb hbs hrest
  | @lineComment body _ hcfg hbody hrest =>
    have hline : ∀ c ∈ body, (c != '\n') = true := by
      intro c hc
      simpa using ne_of_mem_of_not_mem hc hbody
    have hend : ∀ c ∈ rest.head?, (c != '\n') = false := by
      intro c hc
      simpa using hrest c hc
    obtain ⟨htake, hdrop⟩ := takeWhile_append hline hend
    have hcomment : comment ('-' :: '-' :: (body ++ rest)) =
        some (.ok ⟨none, '-' :: '-' :: body, rest⟩) := by
      rw [comment, htake, hdrop]
    exact lexeme_comment hcfg (by decide) hcomment
  | @blockComment body _ hcfg hbody =>
    have hread := blockComment_append_right hbody rest
    have hcomment : comment ('/' :: '*' :: (body ++ rest)) =
        some (.ok ⟨none, '/' :: '*' :: body, rest⟩) := by
      rw [comment, hread]
      rfl
    exact lexeme_comment hcfg (by decide) hcomment

/-- Each form is found where it stands. -/
theorem lexeme_of_piece (hplain : cfg.IsPlain) {kind : Option TokenKind} {taken rest : List Char}
    (h : Piece cfg kind taken rest) :
    lexeme cfg (taken ++ rest) = some (.ok ⟨kind, taken, rest⟩) := by
  cases h with
  | blanks hb hbs hrest => exact lexeme_of_trivia (.blanks hb hbs hrest)
  | lineComment hcfg hbody hrest => exact lexeme_of_trivia (.lineComment hcfg hbody hrest)
  | blockComment _ hcfg hbody => exact lexeme_of_trivia (.blockComment _ hcfg hbody)
  | word hc hw hrest => exact lexeme_word hplain hc hw hrest
  | punctuation _ hc => exact lexeme_punctuation hplain hc rest
  | integer hsgn hds hne hvalue hrest =>
    rw [List.append_assoc]
    exact lexeme_integer hplain hsgn hds hne hrest hvalue
  | string body hrest =>
    have hlexeme := lexeme_string hplain body hrest
    simpa using hlexeme
  | identifier hd hne hname hrest =>
    have hlexeme := lexeme_identifier hplain hd hne hname hrest
    simpa using hlexeme

end Soundness

section Completeness

variable {cs : List Char} {l : Lexeme}

/-- The characters in front of what `p` refuses. -/
theorem of_takeWhile {p : Char → Bool} (cs : List Char) :
    (∀ c ∈ cs.takeWhile p, p c = true) ∧ ∀ c ∈ (cs.dropWhile p).head?, p c = false := by
  refine ⟨fun c hc => List.mem_takeWhile_imp hc, fun c hc => ?_⟩
  have hhead := List.head?_dropWhile_not p cs
  rw [Option.mem_def.1 hc] at hhead
  exact hhead

theorem piece_of_comment (hcfg : cfg.comments = true) (h : comment cs = some (.ok l)) :
    Piece cfg l.kind l.taken l.rest := by
  unfold comment at h
  split at h
  · rename_i cs
    obtain rfl : _ = l := by simpa using h
    obtain ⟨hline, hend⟩ := of_takeWhile (p := (· != '\n')) cs
    refine .lineComment hcfg (fun hmem => ?_) fun c hc => ?_
    · simpa using hline _ hmem
    · simpa using hend c hc
  · split at h
    · rename_i hread
      obtain rfl : _ = l := by simpa using h
      exact .blockComment _ hcfg (blockComment_taken hread)
    · cases h
  · cases h

theorem piece_of_trivia (h : trivia cfg cs = some (.ok l)) : Piece cfg l.kind l.taken l.rest := by
  unfold trivia at h
  split at h
  · split at h
    · rename_i hcfg
      exact piece_of_comment hcfg h
    · cases h
  · rename_i b bs hfront
    obtain rfl : _ = l := by simpa using h
    obtain ⟨hblank, hend⟩ := of_takeWhile (p := Text.isBlank) cs
    rw [hfront] at hblank
    exact .blanks (hblank b List.mem_cons_self)
      (fun c hc => hblank c (List.mem_cons_of_mem b hc)) hend

theorem piece_of_word (h : word cfg cs = some (.ok l)) : Piece cfg l.kind l.taken l.rest := by
  unfold word at h
  split at h
  · cases h
  · split at h
    · rename_i c cs hc
      obtain ⟨rfl, hrest⟩ := closed_eq_some.1 h
      exact .word hc (of_takeWhile cs).1 hrest
    · cases h

theorem piece_of_punctuation (h : punctuation cfg cs = some (.ok l)) :
    Piece cfg l.kind l.taken l.rest := by
  unfold punctuation at h
  split at h
  · cases h
  · split at h
    · rename_i hc
      obtain rfl : _ = l := by simpa using h
      exact .punctuation _ hc
    · cases h

theorem piece_of_integer (h : integer cfg cs = some (.ok l)) : Piece cfg l.kind l.taken l.rest := by
  unfold integer at h
  have hsgn := isSign_sign cs
  generalize sign cs = p at h hsgn
  obtain ⟨sgn, ds⟩ := p
  dsimp only at h hsgn
  split at h
  · cases h
  · rename_i hne
    split at h
    · rename_i hrest
      split at h
      · rename_i hvalue
        obtain rfl : _ = l := by simpa using h
        exact .integer hsgn (of_takeWhile ds).1 (by simpa using hne) hvalue hrest
      · cases h
    · cases h

theorem piece_of_string (h : string cfg cs = some (.ok l)) : Piece cfg l.kind l.taken l.rest := by
  unfold string at h
  split at h
  · split at h
    · rename_i q hread
      obtain ⟨rfl, hrest⟩ := closed_eq_some.1 h
      have htaken := (QuotedRun.taken_of_read hread).1
      dsimp only
      rw [htaken]
      exact .string q.value hrest
    · cases h
  · cases h

theorem eq_opening_of_delimiter? {c : Char} {d : Delimiter} (h : cfg.delimiter? c = some d) :
    c = d.opening := by
  have hopening := List.find?_some h
  exact (beq_iff_eq.1 hopening).symm

theorem piece_of_identifier (h : identifier cfg cs = some (.ok l)) :
    Piece cfg l.kind l.taken l.rest := by
  unfold identifier at h
  split at h
  · cases h
  · split at h
    · cases h
    · rename_i c cs d hd
      obtain rfl := eq_opening_of_delimiter? hd
      split at h
      · cases h
      · split at h
        · cases h
        · rename_i q hread hne
          obtain ⟨rfl, hrest⟩ := closed_eq_some.1 h
          obtain ⟨htaken, hname⟩ := QuotedRun.taken_of_read hread
          dsimp only
          rw [htaken]
          exact .identifier hd (by simpa using hne) hname hrest

/-- What is found is one of the forms. -/
theorem piece_of_lexeme (h : lexeme cfg cs = some (.ok l)) : Piece cfg l.kind l.taken l.rest := by
  obtain ⟨rule, hr, h⟩ := List.exists_of_findSome?_eq_some h
  simp only [rules, List.mem_cons, List.not_mem_nil, or_false] at hr
  rcases hr with rfl | rfl | rfl | rfl | rfl | rfl
  · exact piece_of_trivia h
  · exact piece_of_word h
  · exact piece_of_punctuation h
  · exact piece_of_integer h
  · exact piece_of_string h
  · exact piece_of_identifier h

end Completeness

end Lexer
end DdlSchema
