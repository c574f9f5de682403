import DdlSchema.Proofs.Token.Lexes
import DdlSchema.Proofs.Token.Trivia

/-! Texts that the lexer gets through, to what stands behind them. Trivia leaves no trace: it may be read
in parts, and a line comment takes the blanks of its line along. -/
namespace DdlSchema
namespace Lexer

attribute [local irreducible] lexeme

/-- Whether the lexer gets through characters to what stands behind them. -/
def ReadsTo (cfg : LexerConfig) (cs rest : List Char) : Prop :=
  ∀ p, ∃ ts, tokens cfg p (cs ++ rest) = (tokens cfg (p.after cs) rest).map (ts ++ ·)

variable {cfg : LexerConfig} {kind : Option TokenKind} {cs ds taken rest : List Char}

section Trivia

theorem map_nil_append (x : Except LexError (List Token)) : x.map ([] ++ ·) = x := by
  cases x <;> rfl

theorem tokens_of_trivia (h : Piece cfg none taken rest) (p : Place) :
    tokens cfg p (taken ++ rest) = tokens cfg (p.after taken) rest := by
  rw [tokens_of_lexeme p (lexeme_of_trivia h)]
  exact map_nil_append _

/-- A run of blanks may be read in parts. -/
theorem tokens_blank {b : Char} (hb : Text.isBlank b = true) (cs : List Char) (p : Place) :
    tokens cfg p (b :: cs) = tokens cfg (p.after [b]) cs := by
  obtain ⟨hblank, hend⟩ := of_takeWhile (p := Text.isBlank) cs
  have hcs := List.takeWhile_append_dropWhile (p := Text.isBlank) (l := cs)
  generalize cs.takeWhile Text.isBlank = bs at hblank hcs
  generalize cs.dropWhile Text.isBlank = rest at hend hcs
  subst hcs
  have hpiece : Piece cfg none (b :: bs) rest := .blanks hb hblank hend
  have hwhole := tokens_of_trivia hpiece p
  rw [List.cons_append] at hwhole
  rw [hwhole, ← List.singleton_append, Place.after_append]
  cases bs with
  | nil => rfl
  | cons c bs =>
    have hc := hblank c List.mem_cons_self
    have hbs : ∀ d ∈ bs, Text.isBlank d = true := fun d hd => hblank d (List.mem_cons_of_mem c hd)
    exact (tokens_of_trivia (.blanks hc hbs hend) (p.after [b])).symm

theorem tokens_blanks {bs : List Char} (hbs : ∀ b ∈ bs, Text.isBlank b = true) (cs : List Char)
    (p : Place) : tokens cfg p (bs ++ cs) = tokens cfg (p.after bs) cs := by
  induction bs generalizing p with
  | nil => rfl
  | cons b bs ih =>
    have hmore := ih (fun d hd => hbs d (List.mem_cons_of_mem b hd)) (p.after [b])
    rw [List.cons_append, tokens_blank (hbs b List.mem_cons_self), hmore, ← Place.after_append]
    rfl

/-- A line comment takes the blanks behind it along, up to a newline or to the end. -/
theorem tokens_lineComment (hcfg : cfg.comments = true) {body bs : List Char} (hbody : '\n' ∉ body)
    (hbs : ∀ b ∈ bs, Text.isBlank b = true ∧ b ≠ '\n') (hrest : ∀ c ∈ rest.head?, c = '\n')
    (p : Place) : tokens cfg p ('-' :: '-' :: body ++ (bs ++ rest)) =
      tokens cfg (p.after ('-' :: '-' :: body)) (bs ++ rest) := by
  have hline : '\n' ∉ body ++ bs := by
    intro hmem
    rcases List.mem_append.1 hmem with hmem | hmem
    · exact hbody hmem
    · exact (hbs '\n' hmem).2 rfl
  have hwhole := tokens_of_trivia (.lineComment hcfg hline hrest) p
  have hblanks : tokens cfg (p.after ('-' :: '-' :: body)) (bs ++ rest) = _ :=
    tokens_blanks (fun b hb => (hbs b hb).1) rest _
  rw [hblanks, ← Place.after_append, ← List.append_assoc]
  exact hwhole

theorem tokens_comment (hcfg : cfg.comments = true) {c : List Char} (hc : IsComment c)
    (rest : List Char) (p : Place) : tokens cfg p (c ++ rest) = tokens cfg (p.after c) rest := by
  cases hc with
  | @line body hbody =>
    have hline : tokens cfg p ('-' :: '-' :: body ++ ([] ++ '\n' :: rest)) = _ :=
      tokens_lineComment hcfg hbody (List.forall_mem_nil _) (by simp) p
    rw [List.nil_append, tokens_blank (b := '\n') (by decide), ← Place.after_append] at hline
    simpa using hline
  | block hbody =>
    exact tokens_of_trivia (.blockComment rest hcfg (blockComment_of_body hbody [])) p

end Trivia

section Reading

theorem ReadsTo.nil (rest : List Char) : ReadsTo cfg [] rest :=
  fun p => ⟨[], (map_nil_append (tokens cfg p rest)).symm⟩

theorem ReadsTo.of_eq (h : ∀ p, tokens cfg p (cs ++ rest) = tokens cfg (p.after cs) rest) :
    ReadsTo cfg cs rest :=
  fun p => ⟨[], (h p).trans (map_nil_append _).symm⟩

theorem ReadsTo.append (hcs : ReadsTo cfg cs (ds ++ rest)) (hds : ReadsTo cfg ds rest) :
    ReadsTo cfg (cs ++ ds) rest := by
  intro p
  obtain ⟨ts, hts⟩ := hcs p
  obtain ⟨us, hus⟩ := hds (p.after cs)
  refine ⟨ts ++ us, ?_⟩
  rw [List.append_assoc, hts, hus, Place.after_append]
  cases tokens cfg ((p.after cs).after ds) rest with
  | error e => rfl
  | ok vs => exact congrArg Except.ok (List.append_assoc ts us vs).symm

theorem ReadsTo.lexeme (h : lexeme cfg (taken ++ rest) = some (.ok ⟨kind, taken, rest⟩)) :
    ReadsTo cfg taken rest := fun p => ⟨_, tokens_of_lexeme p h⟩

/-- A token in front of the end is one in front of all that lets it end. -/
theorem Piece.transfer_token {cfg' : LexerConfig} {k : TokenKind} {rest' : List Char}
    (h : Piece cfg (some k) taken rest) (hdelimiters : cfg'.delimiters = cfg.delimiters)
    (hkind : ∀ c, k = .punctuation c → cfg'.isPunctuation c = true)
    (hends : cfg'.endsRun rest' = true) : Piece cfg' (some k) taken rest' := by
  cases h with
  | word hc hw _ => exact .word hc hw hends
  | punctuation _ _ => exact .punctuation _ (hkind _ rfl)
  | integer hsgn hds hne hvalue _ => exact .integer hsgn hds hne hvalue hends
  | string body _ => exact .string body hends
  | @identifier d _ _ hd hne hname _ =>
    have hd' : cfg'.delimiter? d.opening = some d := by
      rw [LexerConfig.delimiter?, hdelimiters]
      exact hd
    exact .identifier hd' hne hname hends

end Reading

end Lexer
end DdlSchema
