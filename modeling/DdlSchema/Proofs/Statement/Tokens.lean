import DdlSchema.Proofs.Script.Text
import DdlSchema.Proofs.Statement.Read
import DdlSchema.Proofs.Token.Lexes

/-! The splitter and the lexer agree on where statements end: the tokens of the statements are those of
the whole script between its separators. -/
namespace DdlSchema

/-- The settings with the separator of statements as one more punctuation character. -/
def LexerConfig.separated (cfg : LexerConfig) : LexerConfig :=
  { cfg with punctuation := cfg.punctuation ++ [';'] }

namespace Statement

open Lexer (Piece Lexes)

variable {cfg : LexerConfig} {n : Nat}

/-- The tokens of a statement, with their bytes in the script. -/
def tokens (cfg : LexerConfig) (s : Statement) : Except LexError (List (TokenKind × Extent)) :=
  (tokenize cfg s.text).map (List.map (Token.placed s.start))

/-- Tokens cut at the separators. -/
def groups (ts : List (TokenKind × Extent)) : List (List (TokenKind × Extent)) :=
  ts.splitOnP (·.1 = .punctuation ';')

section Groups

theorem groups_nil : groups [] = [[]] := rfl

theorem groups_cons_separator (e : Extent) (ts : List (TokenKind × Extent)) :
    groups ((.punctuation ';', e) :: ts) = [] :: groups ts := by
  simp [groups, List.splitOnP_cons_eq_if_modifyHead]

theorem groups_cons {k : TokenKind} (hk : k ≠ .punctuation ';') (e : Extent)
    {ts g : List (TokenKind × Extent)} {gs : List (List (TokenKind × Extent))}
    (h : groups ts = g :: gs) : groups ((k, e) :: ts) = ((k, e) :: g) :: gs := by
  rw [groups] at h
  simp [groups, List.splitOnP_cons_eq_if_modifyHead, hk, h]

end Groups

section Settings

theorem isPunctuation_separated (cfg : LexerConfig) (c : Char) :
    cfg.separated.isPunctuation c = (cfg.isPunctuation c || decide (c = ';')) := by
  simp [LexerConfig.isPunctuation, LexerConfig.separated]

theorem isPlain_separated (h : cfg.IsPlain) : cfg.separated.IsPlain := by
  intro c hc
  rw [isPunctuation_separated, Bool.or_eq_true] at hc
  rcases hc with hc | hc
  · exact h c hc
  · obtain rfl : c = ';' := of_decide_eq_true hc
    decide

/-- Where a run ends in front of a separator, it also ends at the end of the statement. -/
theorem endsRun_of_separated {rest rest' : List Char}
    (hhead : ∀ c ∈ rest'.head?, c ∈ rest.head? ∧ c ≠ ';')
    (h : cfg.separated.endsRun rest = true) : cfg.endsRun rest' = true := by
  have hends := Lexer.endsRun_of_head (fun c hc => (hhead c hc).1) h
  cases rest' with
  | nil => rfl
  | cons c rest' =>
    have hne : decide (c = ';') = false := decide_eq_false (hhead c rfl).2
    rwa [LexerConfig.endsRun, isPunctuation_separated, hne, Bool.or_false] at hends

/-- A lexeme that is no separator is one also in front of the rest of its segment. -/
theorem piece_of_separated {kind : Option TokenKind} {taken rest : List Char}
    (h : Piece cfg.separated kind taken rest) (hsep : kind ≠ some (.punctuation ';')) :
    Piece cfg kind taken (Segment.read .code rest).1.text := by
  have hkind : ∀ c, kind = some (.punctuation c) → cfg.isPunctuation c = true := by
    rintro c rfl
    have hc := h.of_punctuation.2
    have hne : c ≠ ';' := by
      rintro rfl
      exact hsep rfl
    rwa [isPunctuation_separated, decide_eq_false hne, Bool.or_false] at hc
  have hhead : ∀ c ∈ (Segment.read .code rest).1.text.head?, c ∈ rest.head? ∧ c ≠ ';' :=
    fun c hc => Segment.head_text_read hc
  exact h.transfer rfl rfl hkind (fun c hc => (hhead c hc).1) (endsRun_of_separated hhead)

end Settings

/-- Segments from some byte on, one separator apart, and the tokens of each. Only a segment without
tokens may be without code. -/
inductive Holds (cfg : LexerConfig) : Nat → List Segment → List (List (TokenKind × Extent)) → Prop
  | nil (n : Nat) : Holds cfg n [] []
  | cons {n : Nat} {s : Segment} {g : List (TokenKind × Extent)} {more : List Segment}
      {gs : List (List (TokenKind × Extent))} (hlexes : Lexes cfg n s.text g)
      (hcode : s.hasCode = false → g = []) (hmore : Holds cfg (n + byteSize s.text + 1) more gs) :
      Holds cfg n (s :: more) (g :: gs)

section Segments

variable (hplain : cfg.IsPlain)

include hplain

/-- The segments of a text hold the groups of its tokens. -/
theorem holds_read {cs : List Char} {ts : List (TokenKind × Extent)}
    (h : Lexes cfg.separated n cs ts) :
    Holds cfg n (Segment.segments cs) (groups ts) := by
  -- A separator starts a segment and a group; every other lexeme goes in front of the first of both.
  induction h with
  | nil n =>
    rw [Segment.segments, Segment.read, groups_nil]
    exact .cons (.nil n) (fun _ => rfl) (.nil _)
  | @cons n kind taken rest ts hpiece _ ih =>
    by_cases hsep : kind = some (.punctuation ';')
    · subst hsep
      obtain ⟨rfl, -⟩ := hpiece.of_punctuation
      have hgroups := groups_cons_separator ⟨n, n + byteSize [';']⟩ ts
      rw [List.singleton_append, Segment.segments_separator]
      exact hgroups ▸ .cons (.nil n) (fun _ => rfl) ih
    · obtain ⟨isCode, hpasses, hcode⟩ :=
        Segment.passes_piece (isPlain_separated hplain) hpiece hsep
      have hfront := piece_of_separated hpiece hsep
      generalize hgroups : groups ts = gss at ih
      cases ih with
      | @cons _ _ g _ gs hlexes hempty hmore =>
        have hcons : groups (kind.toList.map (·, ⟨n, n + byteSize taken⟩) ++ ts) =
            (kind.toList.map (·, ⟨n, n + byteSize taken⟩) ++ g) :: gs := by
          cases kind with
          | none => exact hgroups
          | some k => exact groups_cons (fun hk => hsep (congrArg some hk)) _ hgroups
        rw [Segment.segments, hcons, hpasses]
        refine .cons (.cons hfront hlexes) (fun hnone => ?_) ?_
        · obtain ⟨hnot, hrest⟩ := Bool.or_eq_false_iff.1 hnone
          cases kind with
          | none => exact hempty hrest
          | some k =>
            rw [hcode (Option.some_ne_none k)] at hnot
            cases hnot
        · rw [Segment.push_text, byteSize_append, ← Nat.add_assoc]
          exact hmore

theorem tokens_trim {s : Segment} {g : List (TokenKind × Extent)} (h : Lexes cfg n s.text g) :
    tokens cfg (s.trim n) = .ok g := by
  have htrimmed := (h.trimStart hplain).trimEnd hplain
  have htokens := Lexer.tokens_of_lexes hplain htrimmed (s.trim n).start .start (Nat.zero_add _).symm
  rw [tokens, tokenize]
  simpa [Segment.trim] using htokens

/-- The statements have the tokens of the groups, but for groups and statements without any. -/
theorem Holds.mapM_tokens {ss : List Segment} {gs : List (List (TokenKind × Extent))}
    (h : Holds cfg n ss gs) :
    ∃ tss, (ofSegments n ss).mapM (tokens cfg) = .ok tss ∧
      tss.filter (!·.isEmpty) = gs.filter (!·.isEmpty) := by
  induction h with
  | nil => exact ⟨[], rfl, rfl⟩
  | @cons n s g more gs hlexes hcode _ ih =>
    obtain ⟨tss, htss, hfilter⟩ := ih
    rw [ofSegments]
    cases hs : s.hasCode with
    | false =>
      obtain rfl := hcode hs
      exact ⟨tss, htss, hfilter⟩
    | true =>
      refine ⟨g :: tss, ?_, ?_⟩
      · rw [if_pos rfl, List.mapM_cons, tokens_trim hplain hlexes, htss]
        rfl
      · rw [List.filter_cons, List.filter_cons, hfilter]

end Segments

/-- Where a script can be read with the separator as punctuation, each of its statements can be read,
and the statements that have tokens have those of the script between two separators, in order. -/
theorem tokens_split (script : String) (ts : List Token)
    (h : tokenize Sqlite.lexer.separated script = .ok ts) :
    ∃ tss, (split script).mapM (tokens Sqlite.lexer) = .ok tss ∧
      tss.filter (!·.isEmpty) = (groups (ts.map (Token.placed 0))).filter (!·.isEmpty) := by
  have hlexes := Lexer.lexes_of_tokens h 0
  exact (holds_read Script.lexer_isPlain hlexes).mapM_tokens Script.lexer_isPlain

section Instance

/-- Two statements with separators in a string, in a comment and in a name. -/
def quotedScript : String := "a 'x;''y';; -- c;\n[b;c] -1"

def quotedTokens : List Token :=
  [⟨.word "a", ⟨⟨0, 1⟩, ⟨1, 1⟩⟩⟩, ⟨.string "x;'y", ⟨⟨2, 9⟩, ⟨1, 3⟩⟩⟩,
    ⟨.punctuation ';', ⟨⟨9, 10⟩, ⟨1, 10⟩⟩⟩, ⟨.punctuation ';', ⟨⟨10, 11⟩, ⟨1, 11⟩⟩⟩,
    ⟨.identifier "b;c" true, ⟨⟨18, 23⟩, ⟨2, 1⟩⟩⟩, ⟨.integer (-1), ⟨⟨24, 26⟩, ⟨2, 7⟩⟩⟩]

theorem tokenize_quotedScript : tokenize Sqlite.lexer.separated quotedScript = .ok quotedTokens := by
  decide +kernel

theorem tokens_split_quotedScript :
    tokenize Sqlite.lexer.separated quotedScript = .ok quotedTokens ∧
      ∃ tss, (split quotedScript).mapM (tokens Sqlite.lexer) = .ok tss ∧
        tss.filter (!·.isEmpty) = [[(.word "a", ⟨0, 1⟩), (.string "x;'y", ⟨2, 9⟩)],
          [(.identifier "b;c" true, ⟨18, 23⟩), (.integer (-1), ⟨24, 26⟩)]] := by
  obtain ⟨tss, htss, hfilter⟩ := tokens_split quotedScript quotedTokens tokenize_quotedScript
  refine ⟨tokenize_quotedScript, tss, htss, hfilter.trans ?_⟩
  decide

end Instance

end Statement
end DdlSchema
