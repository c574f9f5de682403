import DdlSchema.Proofs.Token.Behind
import DdlSchema.Proofs.Token.Scan
import DdlSchema.Proofs.Token.Trivia
import Mathlib.Data.List.Forall2
import Mathlib.Data.String.Basic

/-! The characters of tokens apart from the text that they stood in. By themselves, and with any trivia
between them, they are read as the same tokens, for all settings; only a letter or an underscore that
was read as punctuation becomes a word. -/
namespace DdlSchema

/-- The characters of a token in its text. -/
def Token.slice (source : String) (t : Token) : String :=
  String.Pos.Raw.extract source ⟨t.span.start⟩ ⟨t.span.stop⟩

/-- What the characters of a token are by themselves. -/
def TokenKind.alone : TokenKind → TokenKind
  | punctuation c => if Lexer.startsWord c then word (.ofList [c]) else punctuation c
  | kind => kind

theorem TokenKind.alone_eq {kind : TokenKind}
    (h : ∀ c, kind = punctuation c → Lexer.startsWord c = false) : kind.alone = kind := by
  cases kind with
  | punctuation c => rw [alone, h c rfl]; rfl
  | _ => rfl

theorem byteSize_eq_utf8Len (cs : List Char) : byteSize cs = String.utf8Len cs := by
  induction cs with
  | nil => rfl
  | cons c cs ih => rw [byteSize_cons, String.utf8Len_cons, ih, Nat.add_comm]

theorem extract_append (before taken behind : List Char) :
    String.Pos.Raw.extract (.ofList (before ++ (taken ++ behind))) ⟨byteSize before⟩
      ⟨byteSize before + byteSize taken⟩ = .ofList taken := by
  rw [byteSize_eq_utf8Len, byteSize_eq_utf8Len, ← List.append_assoc]
  exact String.extract_of_valid before taken behind

namespace Lexer

attribute [local irreducible] lexeme

variable {cfg : LexerConfig}

/-- A blank with trivia behind it. -/
def IsSeparator (cfg : LexerConfig) (sep : String) : Prop :=
  ∃ b cs, sep.toList = b :: cs ∧ Text.isBlank b = true ∧ IsTrivia cfg cs

/-- Texts with a separator in front of each of them. -/
def led (seps ss : List String) : String := String.join (List.zipWith (· ++ ·) seps ss)

/-- Texts with a separator between each two of them. -/
def separated (seps : List String) : List String → String
  | [] => ""
  | first :: more => first ++ led seps more

/-- A text that is one token in front of each blank and of the end. -/
def Isolates (cfg : LexerConfig) (s : String) (kind : TokenKind) : Prop :=
  ∀ rest, (∀ c ∈ rest.head?, Text.isBlank c = true) →
    lexeme cfg (s.toList ++ rest) = some (.ok ⟨some kind, s.toList, rest⟩)

theorem Isolates.kinds_append {s : String} {kind : TokenKind} (h : Isolates cfg s kind)
    {rest : List Char} (hrest : ∀ c ∈ rest.head?, Text.isBlank c = true) :
    kinds cfg (s.toList ++ rest) = (kinds cfg rest).map (kind :: ·) :=
  kinds_of_lexeme (h rest hrest)

theorem Isolates.tokenize_eq {s : String} {kind : TokenKind} (h : Isolates cfg s kind) :
    tokenize cfg s = .ok [⟨kind, ⟨⟨0, byteSize s.toList⟩, .start⟩⟩] := by
  have hlexeme := h [] nofun
  rw [List.append_nil] at hlexeme
  rw [tokenize, tokens_of_lexeme .start hlexeme, tokens_nil]
  simp [Except.map, Place.span, Place.start]

/-- A lexeme by itself, or with a blank behind it. -/
theorem isolates_of_lexeme {cs : List Char} {l : Lexeme} {kind : TokenKind}
    (h : lexeme cfg cs = some (.ok l)) (hkind : l.kind = some kind) :
    Isolates cfg (.ofList l.taken) kind.alone := by
  intro rest hrest
  rw [String.toList_ofList]
  by_cases hletter : ∃ c, kind = .punctuation c ∧ startsWord c = true
  · obtain ⟨c, rfl, hc⟩ := hletter
    have hpiece := piece_of_lexeme h
    rw [hkind] at hpiece
    rw [hpiece.of_punctuation.1, TokenKind.alone, if_pos hc]
    exact lexeme_letter hc hrest
  · have hplain : ∀ c, kind = .punctuation c → startsWord c = false := by
      intro c hc
      exact Bool.eq_false_iff.2 fun hstarts => hletter ⟨c, hc, hstarts⟩
    rw [TokenKind.alone_eq hplain, ← hkind]
    refine lexeme_standsFor h hkind (.of_blank hrest) ?_
    rintro c rfl
    have hpiece := piece_of_lexeme h
    rw [hkind] at hpiece
    rw [hpiece.of_punctuation.1]
    exact word_eq_none (hplain c rfl)

section Joining

variable {seps ss : List String} {ks : List TokenKind}

theorem IsSeparator.kinds_append {sep : String} (h : IsSeparator cfg sep) (rest : List Char) :
    kinds cfg (sep.toList ++ rest) = kinds cfg rest := by
  obtain ⟨b, cs, hsep, hb, hcs⟩ := h
  rw [hsep]
  exact kinds_trivia (.blank hb hcs) rest

theorem kinds_led (hseps : ∀ sep ∈ seps, IsSeparator cfg sep) (hlength : seps.length = ss.length)
    (h : List.Forall₂ (Isolates cfg) ss ks) :
    kinds cfg (led seps ss).toList = some ks ∧
      ∀ c ∈ (led seps ss).toList.head?, Text.isBlank c = true := by
  induction h generalizing seps with
  | nil =>
    rw [led, List.zipWith_nil_right]
    exact ⟨kinds_nil, nofun⟩
  | @cons s k ss ks hs _ ih =>
    cases seps with
    | nil => cases hlength
    | cons sep seps =>
      obtain ⟨hsep, hseps⟩ := List.forall_mem_cons.1 hseps
      obtain ⟨hkinds, hhead⟩ := ih hseps (Nat.succ.inj hlength)
      rw [led, List.zipWith_cons_cons, String.join_cons, String.toList_append,
        String.toList_append, List.append_assoc]
      refine ⟨?_, ?_⟩
      · rw [hsep.kinds_append, ← led, hs.kinds_append hhead, hkinds]
        rfl
      · obtain ⟨b, cs, hb, hblank, -⟩ := hsep
        rw [hb]
        rintro c ⟨⟩
        exact hblank

theorem kinds_separated (hseps : ∀ sep ∈ seps, IsSeparator cfg sep)
    (hlength : seps.length = ss.length - 1) (h : List.Forall₂ (Isolates cfg) ss ks) :
    kinds cfg (separated seps ss).toList = some ks := by
  cases h with
  | nil => exact kinds_nil
  | @cons s k ss ks hs hss =>
    obtain ⟨hkinds, hhead⟩ := kinds_led hseps hlength hss
    rw [separated, String.toList_append, hs.kinds_append hhead, hkinds]
    rfl

end Joining

theorem exists_tokens_of_kinds {s : String} {ks : List TokenKind}
    (h : kinds cfg s.toList = some ks) :
    ∃ ts, tokenize cfg s = .ok ts ∧ ts.map Token.kind = ks := by
  rw [← tokens_kinds cfg .start] at h
  obtain ⟨ts, hts, hks⟩ := Option.map_eq_some_iff.1 h
  cases htokens : tokens cfg .start s.toList with
  | error e =>
    rw [htokens] at hts
    cases hts
  | ok us =>
    rw [htokens] at hts
    obtain rfl : us = ts := Option.some.inj hts
    exact ⟨us, htokens, hks⟩

theorem isolates_slice {source : String} {ts : List Token} (h : tokenize cfg source = .ok ts)
    {t : Token} (ht : t ∈ ts) : Isolates cfg (t.slice source) t.kind.alone := by
  obtain ⟨before, l, hsource, hlexeme, hkind, hspan⟩ := (scans_of_tokens h).exists_lexeme ht
  rw [List.append_nil] at hsource
  have hslice : t.slice source = .ofList l.taken := by
    have hextract := extract_append before l.taken l.rest
    rw [← hsource, String.ofList_toList] at hextract
    have hstart : t.span.start = byteSize before := by
      rw [hspan]
      exact Nat.zero_add (byteSize before)
    have hstop : t.span.stop = byteSize before + byteSize l.taken := by
      rw [hspan]
      exact congrArg (· + byteSize l.taken) (Nat.zero_add (byteSize before))
    rw [Token.slice, hstart, hstop]
    exact hextract
  rw [hslice]
  exact isolates_of_lexeme hlexeme hkind

end Lexer

open Lexer

/-- The characters of the tokens of a text, with a separator between each two, are read as the same
tokens, and those of each token by themselves as that token. A letter or an underscore that was
punctuation is a word then; without such a token nothing changes. -/
theorem tokenize_separated (cfg : LexerConfig) (source : String) (ts : List Token)
    (h : tokenize cfg source = .ok ts) :
    (∀ seps : List String, seps.length = ts.length - 1 → (∀ sep ∈ seps, IsSeparator cfg sep) →
      ∃ us, tokenize cfg (separated seps (ts.map (Token.slice source))) = .ok us ∧
        us.map Token.kind = ts.map (·.kind.alone)) ∧
    (∀ t ∈ ts, tokenize cfg (t.slice source) =
      .ok [⟨t.kind.alone, ⟨⟨0, byteSize (t.slice source).toList⟩, .start⟩⟩]) ∧
    ((∀ t ∈ ts, ∀ c, t.kind = .punctuation c → startsWord c = false) →
      ts.map (·.kind.alone) = ts.map Token.kind) := by
  refine ⟨fun seps hlength hseps => ?_, fun t ht => (isolates_slice h ht).tokenize_eq,
    fun hletters => ?_⟩
  · have hslices : List.Forall₂ (Isolates cfg) (ts.map (Token.slice source))
        (ts.map (·.kind.alone)) := by
      rw [List.forall₂_map_left_iff, List.forall₂_map_right_iff, List.forall₂_same]
      exact fun t ht => isolates_slice h ht
    exact exists_tokens_of_kinds (kinds_separated hseps (by rwa [List.length_map]) hslices)
  · exact List.map_congr_left fun t ht => TokenKind.alone_eq (hletters t ht)

section Instance

/-- Settings with a letter and a hyphen among the punctuation. -/
def hyphened : LexerConfig := { punctuation := ['a', '-'] }

def hyphenedTokens : List Token :=
  [⟨.punctuation '-', ⟨⟨0, 1⟩, ⟨1, 1⟩⟩⟩, ⟨.integer 5, ⟨⟨1, 2⟩, ⟨1, 2⟩⟩⟩,
    ⟨.punctuation 'a', ⟨⟨3, 4⟩, ⟨1, 4⟩⟩⟩, ⟨.string "é", ⟨⟨4, 8⟩, ⟨1, 5⟩⟩⟩]

theorem tokenize_hyphened : tokenize hyphened "-5 a'é'" = .ok hyphenedTokens := by decide +kernel

/-- A letter that was read as punctuation is a word in front of a blank. -/
theorem tokenize_separated_letter :
    tokenize hyphened "a'x'" = .ok
        [⟨.punctuation 'a', ⟨⟨0, 1⟩, ⟨1, 1⟩⟩⟩, ⟨.string "x", ⟨⟨1, 4⟩, ⟨1, 2⟩⟩⟩] ∧
      tokenize hyphened "a 'x'" = .ok
        [⟨.word "a", ⟨⟨0, 1⟩, ⟨1, 1⟩⟩⟩, ⟨.string "x", ⟨⟨2, 5⟩, ⟨1, 3⟩⟩⟩] := by
  constructor <;> decide +kernel

theorem isSeparator_comments : ∀ sep ∈ ["\t/***/", " --'\n", "\n"], IsSeparator hyphened sep := by
  have hblock : IsComment ('/' :: '*' :: (['*'] ++ ['*', '/'])) := .block (by decide)
  have hline : IsComment ('-' :: '-' :: (['\''] ++ ['\n'])) := .line (by decide)
  simp only [List.forall_mem_cons, List.not_mem_nil, false_imp_iff, implies_true, and_true]
  refine ⟨⟨'\t', _, rfl, by decide, ?_⟩, ⟨' ', _, rfl, by decide, ?_⟩, '\n', [], rfl, by decide, .nil⟩
  · exact .comment rfl hblock .nil
  · exact .comment rfl hline .nil

/-- The hyphen and the number stay apart; the letter is a word. -/
theorem tokenize_separated_hyphened :
    tokenize hyphened "-5 a'é'" = .ok hyphenedTokens ∧
      (∃ us, tokenize hyphened "-\t/***/5 --'\na\n'é'" = .ok us ∧
        us.map Token.kind = [.punctuation '-', .integer 5, .word "a", .string "é"]) ∧
      tokenize hyphened "a" = .ok [⟨.word "a", ⟨⟨0, 1⟩, ⟨1, 1⟩⟩⟩] := by
  obtain ⟨hjoined, halone, -⟩ :=
    tokenize_separated hyphened "-5 a'é'" hyphenedTokens tokenize_hyphened
  refine ⟨tokenize_hyphened, ?_, ?_⟩
  · have hus := hjoined ["\t/***/", " --'\n", "\n"] rfl isSeparator_comments
    exact hus
  · have hletter := halone ⟨.punctuation 'a', ⟨⟨3, 4⟩, ⟨1, 4⟩⟩⟩ (by decide)
    exact hletter

end Instance

end DdlSchema
