import DdlSchema.Proofs.Token.Behind
import DdlSchema.Proofs.Token.Scan
import DdlSchema.Proofs.Token.Trivia

/-! Where tokens and faults stand in a text. Tokens have whole characters each, in the order of their
places, with nothing but trivia around them; a fault stands right behind a text that can be read. -/
namespace DdlSchema

/-- The characters behind the last newline. -/
def lastLine (cs : List Char) : List Char := (cs.reverse.takeWhile (· != '\n')).reverse

/-- The line and column behind a text, counted in newlines and in characters of its last line, modulo
`2 ^ 32`. -/
def Position.behind (cs : List Char) : Position :=
  ⟨.ofNat (1 + cs.count '\n'), .ofNat (1 + (lastLine cs).length)⟩

theorem Position.after_start (cs : List Char) : Position.start.after cs = Position.behind cs := by
  induction cs using List.reverseRecOn with
  | nil => rfl
  | append_singleton cs c ih =>
    rw [Position.after_append, ih]
    by_cases hc : c = '\n'
    · subst hc
      simp [Position.after, Position.next, Position.behind, lastLine, UInt32.add_assoc]
    · simp [Position.after, Position.next, Position.behind, lastLine, hc, UInt32.add_assoc]

/-- In a text of fewer characters, the numbers are the counts. -/
theorem Position.toNat_behind {cs : List Char} (h : cs.length + 1 < UInt32.size) :
    (Position.behind cs).line.toNat = 1 + cs.count '\n' ∧
      (Position.behind cs).column.toNat = 1 + (lastLine cs).length := by
  have hline : cs.count '\n' ≤ cs.length := List.count_le_length
  have hcolumn : (lastLine cs).length ≤ cs.length := by
    have hprefix := List.takeWhile_prefix (l := cs.reverse) (· != '\n')
    simpa [lastLine] using hprefix.length_le
  exact ⟨UInt32.toNat_ofNat_of_lt (by omega), UInt32.toNat_ofNat_of_lt (by omega)⟩

/-- The span of some characters of a text: their bytes, with the line and column of the first. -/
def Span.IsIn (s : Span) (source : List Char) : Prop :=
  ∃ before taken behind, source = before ++ (taken ++ behind) ∧ taken ≠ [] ∧
    s = ⟨⟨byteSize before, byteSize before + byteSize taken⟩, .behind before⟩

theorem span_start_after (before taken : List Char) :
    (Place.start.after before).span taken =
      ⟨⟨byteSize before, byteSize before + byteSize taken⟩, .behind before⟩ := by
  simp [Place.span, Place.after, Place.start, Position.after_start]

theorem Span.IsIn.start_lt_stop {s : Span} {source : List Char} (h : s.IsIn source) :
    s.start < s.stop := by
  obtain ⟨before, taken, behind, -, hne, rfl⟩ := h
  exact Nat.lt_add_of_pos_right (byteSize_pos hne)

namespace Lexer

/-- A text that begins at some byte, as tokens with trivia before, between and behind them. Behind the
last token a line comment may do without its newline. -/
inductive Woven (cfg : LexerConfig) : Nat → List Char → List Token → Prop
  | last {n : Nat} {gap : List Char} (hgap : IsTrivia cfg (gap ++ ['\n'])) : Woven cfg n gap []
  | token {n : Nat} {gap taken rest : List Char} {t : Token} {ts : List Token}
      (hgap : IsTrivia cfg gap) (hne : taken ≠ []) (hstart : t.span.start = n + byteSize gap)
      (hstop : t.span.stop = t.span.start + byteSize taken)
      (hrest : Woven cfg t.span.stop rest ts) : Woven cfg n (gap ++ (taken ++ rest)) (t :: ts)

attribute [local irreducible] lexeme

variable {cfg : LexerConfig} {n : Nat} {p : Place} {cs front rest : List Char} {ts : List Token}

section Gaps

theorem Woven.trivia_append {gap : List Char} (hgap : ∀ cs, IsTrivia cfg cs → IsTrivia cfg (gap ++ cs))
    (h : Woven cfg (n + byteSize gap) cs ts) : Woven cfg n (gap ++ cs) ts := by
  cases h with
  | last hlast =>
    refine .last ?_
    rw [List.append_assoc]
    exact hgap _ hlast
  | @token _ gap' taken rest t ts hgap' hne hstart hstop hrest =>
    rw [← List.append_assoc]
    refine .token (hgap gap' hgap') hne ?_ hstop hrest
    rw [hstart, byteSize_append, Nat.add_assoc]

theorem Woven.blanks {bs : List Char} (hbs : ∀ b ∈ bs, Text.isBlank b = true)
    (h : Woven cfg (n + byteSize bs) cs ts) : Woven cfg n (bs ++ cs) ts :=
  .trivia_append (fun _ => .blanks hbs) h

theorem Woven.comment {c : List Char} (hcfg : cfg.comments = true) (hc : IsComment c)
    (h : Woven cfg (n + byteSize c) cs ts) : Woven cfg n (c ++ cs) ts :=
  .trivia_append (fun _ => .comment hcfg hc) h

theorem Woven.eq_nil (h : Woven cfg n [] ts) : ts = [] := by
  generalize htext : [] = text at h
  cases h with
  | last => rfl
  | token _ hne => simp_all

/-- A line comment takes the newline behind it along, or does without one at the end. -/
theorem Woven.lineComment {body : List Char} (hcfg : cfg.comments = true) (hbody : '\n' ∉ body)
    (hnewline : ∀ c ∈ front.head?, c = '\n')
    (h : Woven cfg (n + byteSize ('-' :: '-' :: body)) front ts)
    (htail : ∀ more, front = '\n' :: more →
      Woven cfg (n + byteSize ('-' :: '-' :: body) + '\n'.utf8Size) more ts) :
    Woven cfg n ('-' :: '-' :: body ++ front) ts := by
  cases front with
  | nil =>
    obtain rfl := h.eq_nil
    refine .last ?_
    have htrivia := IsTrivia.comment hcfg (.line hbody) .nil
    simpa using htrivia
  | cons c front =>
    obtain rfl : c = '\n' := hnewline c rfl
    have hrest := htail front rfl
    have hsize : n + byteSize ('-' :: '-' :: body) + '\n'.utf8Size =
        n + byteSize ('-' :: '-' :: (body ++ ['\n'])) := by
      simp [Nat.add_assoc]
    rw [hsize] at hrest
    have hcomment := Woven.comment hcfg (.line hbody) hrest
    simpa using hcomment

/-- What is woven stays so with trivia in front of it, also without the blank that it then begins
with: that may be the newline of a line comment further in front. -/
theorem Woven.piece {taken : List Char} (h : Piece cfg none taken front)
    (hwoven : Woven cfg (n + byteSize taken) front ts)
    (htail : ∀ b more, front = b :: more → Text.isBlank b = true →
      Woven cfg (n + byteSize taken + b.utf8Size) more ts) :
    Woven cfg n (taken ++ front) ts ∧
      ∀ b more, taken ++ front = b :: more → Text.isBlank b = true →
        Woven cfg (n + b.utf8Size) more ts := by
  cases h with
  | @blanks b bs _ hb hbs =>
    have hrest : Woven cfg (n + b.utf8Size) (bs ++ front) ts := by
      rw [byteSize_cons, ← Nat.add_assoc] at hwoven
      exact .blanks hbs hwoven
    have hblank : Woven cfg n ([b] ++ (bs ++ front)) ts := .blanks (by simpa using hb) hrest
    refine ⟨hblank, fun c more hcs _ => ?_⟩
    obtain ⟨rfl, rfl⟩ := List.cons.inj hcs
    exact hrest
  | lineComment hcfg hbody hnewline =>
    refine ⟨.lineComment hcfg hbody hnewline hwoven fun more hmore => htail _ more hmore (by decide),
      fun b more hcs hb => ?_⟩
    obtain ⟨rfl, -⟩ := List.cons.inj hcs
    cases hb
  | blockComment _ hcfg hbody =>
    obtain ⟨body, rfl, hfirst⟩ := exists_body_of_blockComment hbody
    refine ⟨.comment hcfg (.block hfirst) hwoven, fun b more hcs hb => ?_⟩
    obtain ⟨rfl, -⟩ := List.cons.inj hcs
    cases hb

/-- A row of lexemes is woven, also without a blank that it begins with. -/
theorem Scans.woven (h : Scans cfg [] p cs ts) :
    Woven cfg p.offset cs ts ∧ ∀ b more, cs = b :: more → Text.isBlank b = true →
      Woven cfg (p.offset + b.utf8Size) more ts := by
  induction h with
  | nil p => exact ⟨.last (.blank (by decide) .nil), nofun⟩
  | @cons p kind taken front ts hlexeme _ ih =>
    rw [List.append_nil] at hlexeme
    obtain ⟨hwoven, htail⟩ := ih
    simp only [Place.after] at hwoven htail
    cases kind with
    | none => exact Woven.piece (piece_of_lexeme hlexeme) hwoven htail
    | some k =>
      have hne := (lexeme_splits hlexeme).2
      have htoken : Woven cfg p.offset ([] ++ (taken ++ front)) (⟨k, p.span taken⟩ :: ts) :=
        .token .nil hne rfl rfl hwoven
      refine ⟨htoken, fun b more hcs hb => ?_⟩
      rw [hcs, lexeme_blank hb] at hlexeme
      cases hlexeme

end Gaps

section Cuts

/-- A token of a text is the letter or underscore `c`, read as punctuation, and behind it the text has
nothing but the word characters `w`. -/
def OpensWord (p : Place) (front : List Char) (t : Token) (c : Char) (w : List Char) : Prop :=
  ∃ before, front = before ++ c :: w ∧ t = ⟨.punctuation c, (p.after before).span [c]⟩ ∧
    startsWord c = true ∧ ∀ d ∈ w, continuesWord d = true

/-- What the tokens of a text become where the text behind them is cut off: the same, unless one of
them opens a word that the cut lets end. From the first such token on there is that word. -/
inductive Recut (p : Place) (front : List Char) (ts : List Token) : List Token → Prop
  | same (hts : ∀ t ∈ ts, ∀ c w, ¬OpensWord p front t c w) : Recut p front ts ts
  | word {kept more : List Token} {t : Token} {c : Char} {w : List Char}
      (hts : ts = kept ++ t :: more) (hkept : ∀ u ∈ kept, ∀ d v, ¬OpensWord p front u d v)
      (ht : OpensWord p front t c w) :
      Recut p front ts (kept ++ [⟨.word (.ofList (c :: w)),
        ⟨⟨t.span.start, t.span.start + byteSize (c :: w)⟩, t.span.position⟩⟩])

variable {taken : List Char} {t : Token} {c : Char} {w : List Char}

theorem OpensWord.append (h : OpensWord (p.after taken) front t c w) :
    OpensWord p (taken ++ front) t c w := by
  obtain ⟨before, rfl, rfl, hc, hw⟩ := h
  exact ⟨taken ++ before, by rw [List.append_assoc], by rw [Place.after_append], hc, hw⟩

theorem OpensWord.of_append (h : OpensWord p (taken ++ front) t c w)
    (ht : (p.after taken).offset ≤ t.span.start) : OpensWord (p.after taken) front t c w := by
  obtain ⟨before, hfront, rfl, hc, hw⟩ := h
  have hsize : byteSize taken ≤ byteSize before := Nat.le_of_add_le_add_left ht
  rcases List.append_eq_append_iff.1 hfront with ⟨more, rfl, rfl⟩ | ⟨more, rfl, hmore⟩
  · exact ⟨more, rfl, by rw [Place.after_append], hc, hw⟩
  · have hnil : more = [] := by
      by_contra hne
      have hpos := byteSize_pos hne
      rw [byteSize_append] at hsize
      omega
    subst hnil
    exact ⟨[], hmore.symm, by rw [List.append_nil, Place.after_nil], hc, hw⟩

/-- Only a letter that stands as punctuation in front of word characters opens a word. -/
theorem not_opensWord {k : TokenKind}
    (h : ¬∃ c x, k = .punctuation c ∧ word cfg (taken ++ front) = some x) :
    ¬OpensWord p (taken ++ front) ⟨k, p.span taken⟩ c w := by
  rintro ⟨before, hfront, htoken, hc, hw⟩
  obtain ⟨rfl, hspan⟩ := Token.mk.inj htoken
  have hstart : p.offset = p.offset + byteSize before := congrArg (·.start) hspan
  have hnil : before = [] := by
    by_contra hne
    have hpos := byteSize_pos hne
    omega
  rw [hnil, List.nil_append] at hfront
  have hword : word cfg (c :: (w ++ [])) = _ := word_eq hc hw nofun rfl
  rw [List.append_nil, ← hfront] at hword
  exact h ⟨c, _, rfl, hword⟩

theorem Recut.append {us first : List Token} (h : Recut (p.after taken) front ts us)
    (hfirst : ∀ t ∈ first, ∀ c w, ¬OpensWord p (taken ++ front) t c w)
    (hplaces : ∀ t ∈ ts, (p.after taken).offset ≤ t.span.start) :
    Recut p (taken ++ front) (first ++ ts) (first ++ us) := by
  cases h with
  | same hts =>
    refine .same fun t ht c w hopens => ?_
    rcases List.mem_append.1 ht with ht | ht
    · exact hfirst t ht c w hopens
    · exact hts t ht c w (hopens.of_append (hplaces t ht))
  | @word kept more t c w hts hkept ht =>
    have htokens : first ++ ts = (first ++ kept) ++ t :: more := by rw [hts, List.append_assoc]
    rw [← List.append_assoc]
    refine .word htokens (fun u hu d v hopens => ?_) ht.append
    rcases List.mem_append.1 hu with hu | hu
    · exact hfirst u hu d v hopens
    · have hmem : u ∈ ts := hts ▸ List.mem_append_left (t :: more) hu
      exact hkept u hu d v (hopens.of_append (hplaces u hmem))

theorem Recut.eq {us : List Token} (h : Recut p front ts us)
    (hletters : ∀ t ∈ ts, ∀ c, t.kind = .punctuation c → startsWord c = false) : us = ts := by
  cases h with
  | same => rfl
  | @word kept more t c w hts _ ht =>
    obtain ⟨before, -, rfl, hc, -⟩ := ht
    have hmem := hts ▸ List.mem_append_right kept List.mem_cons_self
    rw [hletters _ hmem c rfl] at hc
    cases hc

theorem eq_of_word {l : Lexeme} (h : word cfg (c :: cs) = some (.ok l)) :
    l = ⟨some (.word (.ofList (c :: cs.takeWhile continuesWord))),
      c :: cs.takeWhile continuesWord, cs.dropWhile continuesWord⟩ := by
  rw [word, if_pos (startsWord_of_word h)] at h
  exact (closed_eq_some.1 h).1.symm

/-- A word that begins only because the text is cut off goes on up to the cut. -/
theorem word_of_cut {x : Except Refusal Lexeme} (hnew : word cfg (c :: front) = some x)
    (hold : word cfg (c :: (front ++ rest)) = none) :
    (∀ d ∈ front, continuesWord d = true) ∧
      x = .ok ⟨some (.word (.ofList (c :: front))), c :: front, []⟩ := by
  cases x with
  | error r => exact absurd hnew word_ne_error
  | ok l =>
    have hl := eq_of_word hnew
    have hrest : l.rest = [] := by
      by_contra hne
      obtain ⟨d, more, hmore⟩ := List.exists_cons_of_ne_nil hne
      have hstands : StandsFor (l.rest ++ rest) l.rest := .of_head (by simp [hmore])
      have hword := word_standsFor hnew hstands
      rw [← List.append_assoc, (word_splits hnew).1, List.cons_append, hold] at hword
      cases hword
    have hall : ∀ d ∈ front, continuesWord d = true := by
      rw [hl] at hrest
      exact List.dropWhile_eq_nil_iff.1 hrest
    refine ⟨hall, ?_⟩
    rw [hl, List.takeWhile_eq_self_iff.2 hall, List.dropWhile_eq_nil_iff.2 hall]

/-- A letter that is punctuation in front of the whole text but could begin a word in front of its
first part: that part is one word. -/
theorem scans_word_of_cut {x : Except Refusal Lexeme}
    (hold : lexeme cfg (c :: (front ++ rest)) =
      some (.ok ⟨some (.punctuation c), [c], front ++ rest⟩))
    (hnew : word cfg (c :: front) = some x) :
    (∀ d ∈ front, continuesWord d = true) ∧
      Scans cfg [] p (c :: front) [⟨.word (.ofList (c :: front)), p.span (c :: front)⟩] := by
  have hletter : startsWord c = true := startsWord_of_word hnew
  have hnone : word cfg (c :: (front ++ rest)) = none := by
    refine Option.eq_none_iff_forall_ne_some.2 fun y hy => ?_
    have hfirst := lexeme_of_word hletter hy
    rw [hold] at hfirst
    obtain rfl := Option.some.inj hfirst
    have hkind := congrArg Lexeme.kind (eq_of_word hy)
    cases hkind
  obtain ⟨hw, rfl⟩ := word_of_cut hnew hnone
  have hlast : lexeme cfg ((c :: front) ++ ([] ++ [])) =
      some (.ok ⟨some (.word (.ofList (c :: front))), c :: front, [] ++ []⟩) := by
    rw [List.append_nil, List.append_nil]
    exact lexeme_of_word hletter hnew
  have hscans := Scans.cons hlast (.nil (p.after (c :: front)))
  rw [List.append_nil] at hscans
  exact ⟨hw, hscans⟩

/-- What was taken off in front of another text can be read without it. -/
theorem Scans.cut (h : Scans cfg rest p front ts) :
    ∃ us, Scans cfg [] p front us ∧ Recut p front ts us := by
  induction h with
  | nil p => exact ⟨[], .nil p, .same nofun⟩
  | @cons p kind taken front ts hlexeme hfront ih =>
    obtain ⟨us, hus, hrecut⟩ := ih
    have hhead : ∀ c ∈ front.head?, c ∈ (front ++ rest).head? := by
      intro c hc
      obtain ⟨more, rfl⟩ := List.head?_eq_some_iff.1 hc
      rfl
    have hkeep (hnew : lexeme cfg (taken ++ front) = some (.ok ⟨kind, taken, front⟩)) :
        Scans cfg [] p (taken ++ front) (kind.toList.map (⟨·, p.span taken⟩) ++ us) :=
      .cons (by rwa [List.append_nil]) hus
    cases kind with
    | none =>
      have hpiece := (piece_of_lexeme hlexeme).transfer rfl rfl nofun hhead (endsRun_of_head hhead)
      exact ⟨_, hkeep (lexeme_of_trivia hpiece),
        hrecut.append nofun fun t ht => hfront.offset_le ht⟩
    | some k =>
      by_cases hword : ∃ c x, k = .punctuation c ∧ word cfg (taken ++ front) = some x
      · obtain ⟨c, x, rfl, hnew⟩ := hword
        obtain ⟨rfl, -⟩ := (piece_of_lexeme hlexeme).of_punctuation
        have hold : lexeme cfg (c :: (front ++ rest)) =
            some (.ok ⟨some (.punctuation c), [c], front ++ rest⟩) := hlexeme
        have hbegins : word cfg (c :: front) = some x := hnew
        obtain ⟨hw, hscans⟩ := scans_word_of_cut (p := p) hold hbegins
        have hopens : OpensWord p (c :: front) ⟨.punctuation c, p.span [c]⟩ c front :=
          ⟨[], rfl, rfl, startsWord_of_word hbegins, hw⟩
        have hkept : ∀ u ∈ ([] : List Token), ∀ d v, ¬OpensWord p (c :: front) u d v :=
          fun u hu => absurd hu List.not_mem_nil
        exact ⟨_, hscans, .word (List.nil_append _).symm hkept hopens⟩
      · have hnone : ∀ c, k = .punctuation c → word cfg (taken ++ front) = none := fun c hk =>
          Option.eq_none_iff_forall_ne_some.2 fun x hx => hword ⟨c, x, hk, hx⟩
        refine ⟨_, hkeep (lexeme_standsFor hlexeme rfl (.of_head hhead) hnone),
          hrecut.append (fun t ht c w => ?_) fun t ht => hfront.offset_le ht⟩
        obtain rfl : t = ⟨k, p.span taken⟩ := by simpa using ht
        exact not_opensWord hword

end Cuts

section Spans

theorem Scans.isIn (h : Scans cfg [] .start cs ts) {t : Token} (ht : t ∈ ts) : t.span.IsIn cs := by
  obtain ⟨before, l, hcs, hlexeme, -, hspan⟩ := h.exists_lexeme ht
  rw [List.append_nil] at hcs
  exact ⟨before, l.taken, l.rest, hcs, (lexeme_splits hlexeme).2, by rw [hspan, span_start_after]⟩

theorem isIn_of_refused {e : LexError} (h : tokens cfg .start cs = .error e) : e.span.IsIn cs := by
  obtain ⟨front, rest, hcs, -, ⟨-, htokens⟩ | ⟨e', herror, hfault⟩⟩ := exists_scans cfg .start cs
  · rw [h] at htokens
    cases htokens
  · obtain rfl := Except.error.inj (h.symm.trans herror)
    obtain ⟨taken, behind, rfl, hne, hspan⟩ := hfault.exists_span
    exact ⟨front, taken, behind, hcs, hne, by rw [hspan, span_start_after]⟩

end Spans

end Lexer

open Lexer

/-- Where a text is read, its tokens have whole characters, at least one each, in the order of their
places, with the lines and columns of their first ones, and there is nothing but trivia around them.
Where it is refused, so has the fault, and the text in front of the fault can be read. Its tokens are
those found before the fault, unless one of these opens a word that the fault kept from ending: a
letter or an underscore that is punctuation. -/
theorem tokenize_geometry (cfg : LexerConfig) (source : String) :
    (∀ ts, tokenize cfg source = .ok ts →
      (∀ t ∈ ts, t.span.start < t.span.stop ∧ t.span.IsIn source.toList) ∧
      ts.Pairwise (fun t u => t.span.stop ≤ u.span.start) ∧ Woven cfg 0 source.toList ts) ∧
    ∀ e, tokenize cfg source = .error e →
      e.span.start < e.span.stop ∧ e.span.IsIn source.toList ∧
      ∃ front rest us, source.toList = front ++ rest ∧ e.span.start = byteSize front ∧
        tokenize cfg (.ofList front) = .ok us ∧
        Recut .start front (readable cfg .start source.toList) us ∧
        ((∀ t ∈ readable cfg .start source.toList, ∀ c, t.kind = .punctuation c →
          startsWord c = false) → us = readable cfg .start source.toList) := by
  refine ⟨fun ts h => ?_, fun e h => ?_⟩
  · have hscans := scans_of_tokens h
    refine ⟨fun t ht => ?_, hscans.pairwise, hscans.woven.1⟩
    have hin := hscans.isIn ht
    exact ⟨hin.start_lt_stop, hin⟩
  · obtain ⟨front, rest, hsource, hscans, ⟨-, htokens⟩ | ⟨e', herror, hfault⟩⟩ :=
      exists_scans cfg .start source.toList
    · rw [tokenize, htokens] at h
      cases h
    · rw [tokenize, herror] at h
      obtain rfl := Except.error.inj h
      obtain ⟨taken, behind, rfl, hne, hspan⟩ := hfault.exists_span
      rw [span_start_after] at hspan
      have hin : e'.span.IsIn source.toList := ⟨front, taken, behind, hsource, hne, hspan⟩
      obtain ⟨us, hus, hrecut⟩ := hscans.cut
      refine ⟨hin.start_lt_stop, hin, front, _, us, hsource, by rw [hspan], ?_, hrecut, hrecut.eq⟩
      rw [tokenize, String.toList_ofList]
      exact tokens_of_scans hus

section Instance

/-- Settings with a letter among the punctuation. -/
def lettered : LexerConfig := { punctuation := ['a'] }

theorem byteSize_replicate (n : Nat) : byteSize (List.replicate n ' ') = n := by
  induction n with
  | zero => rfl
  | succ n ih =>
    rw [List.replicate_succ, byteSize_cons, ih, Nat.add_comm]
    rfl

theorem behind_replicate (n : Nat) :
    Position.behind (List.replicate n ' ') = ⟨1, .ofNat (1 + n)⟩ := by
  have hcount : (List.replicate n ' ').count '\n' = 0 := List.count_eq_zero.2 (by simp)
  have hline : lastLine (List.replicate n ' ') = List.replicate n ' ' := by simp [lastLine]
  rw [Position.behind, hcount, hline, List.length_replicate]
  rfl

/-- A comma behind a line of blanks. -/
theorem tokenize_comma {n : Nat} (hn : 0 < n) :
    tokenize {} (.ofList (List.replicate n ' ' ++ [','])) =
      .ok [⟨.punctuation ',', ⟨⟨n, n + 1⟩, ⟨1, .ofNat (1 + n)⟩⟩⟩] := by
  have hblanks : Piece {} none (List.replicate n ' ') ([','] ++ []) := by
    obtain ⟨m, rfl⟩ : ∃ m, n = m + 1 := ⟨n - 1, by omega⟩
    rw [List.replicate_succ]
    refine .blanks (by decide) (fun c hc => ?_) fun c hc => ?_
    · rw [List.eq_of_mem_replicate hc]
      decide
    · obtain rfl : ',' = c := Option.some.inj hc
      decide
  have hcomma : Scans {} [] (Place.start.after (List.replicate n ' ')) ([','] ++ [])
      ([⟨.punctuation ',', _⟩] ++ []) := @Scans.cons _ _ _ (some (.punctuation ',')) _ _ _ rfl (.nil _)
  have hscans := @Scans.cons _ _ .start none _ _ _ (lexeme_of_trivia hblanks) hcomma
  have htokens := tokens_of_scans hscans
  rw [span_start_after, byteSize_replicate, behind_replicate] at htokens
  rw [tokenize, String.toList_ofList]
  exact htokens

/-- A letter that was read as punctuation in front of a fault is a word once the text ends there. And a
line of `2 ^ 32` characters brings the column back to 1. -/
theorem tokenize_cut_letter :
    tokenize lettered "a'" = .error ⟨.unterminatedString, ⟨⟨1, 2⟩, ⟨1, 2⟩⟩⟩ ∧
      readable lettered .start "a'".toList = [⟨.punctuation 'a', ⟨⟨0, 1⟩, ⟨1, 1⟩⟩⟩] ∧
      tokenize lettered "a" = .ok [⟨.word "a", ⟨⟨0, 1⟩, ⟨1, 1⟩⟩⟩] ∧
      tokenize {} (.ofList (List.replicate UInt32.size ' ' ++ [','])) =
        .ok [⟨.punctuation ',', ⟨⟨UInt32.size, UInt32.size + 1⟩, ⟨1, 1⟩⟩⟩] := by
  have hcolumn : UInt32.ofNat (1 + UInt32.size) = 1 := by decide
  have hfar := tokenize_comma (n := UInt32.size) (by decide)
  rw [hcolumn] at hfar
  refine ⟨?_, ?_, ?_, hfar⟩ <;> decide +kernel

/-- Characters of several bytes, with comments of both kinds. -/
def commented : String := "\n\"é\" -- 'x\n/* */+7 --"

def commentedTokens : List Token :=
  [⟨.identifier "é" true, ⟨⟨1, 5⟩, ⟨2, 1⟩⟩⟩, ⟨.integer 7, ⟨⟨17, 19⟩, ⟨3, 6⟩⟩⟩]

theorem readable_lettered :
    readable lettered .start "x '".toList = [⟨.word "x", ⟨⟨0, 1⟩, ⟨1, 1⟩⟩⟩] := by
  decide +kernel

/-- In front of the first fault two letters become one word; in front of the second nothing
changes. -/
theorem tokenize_geometry_lettered :
    tokenize lettered commented = .ok commentedTokens ∧
      Woven lettered 0 commented.toList commentedTokens ∧
      tokenize lettered "x aa'" = .error ⟨.unterminatedString, ⟨⟨4, 5⟩, ⟨1, 5⟩⟩⟩ ∧
      (∃ front rest us, "x aa'".toList = front ++ rest ∧ 4 = byteSize front ∧
        tokenize lettered (.ofList front) = .ok us ∧
        Recut .start front (readable lettered .start "x aa'".toList) us) ∧
      tokenize lettered "x '" = .error ⟨.unterminatedString, ⟨⟨2, 3⟩, ⟨1, 3⟩⟩⟩ ∧
      ∃ front rest, "x '".toList = front ++ rest ∧ 2 = byteSize front ∧
        tokenize lettered (.ofList front) = .ok [⟨.word "x", ⟨⟨0, 1⟩, ⟨1, 1⟩⟩⟩] := by
  have hok : tokenize lettered commented = .ok commentedTokens := by decide +kernel
  have herror : tokenize lettered "x aa'" =
      .error ⟨.unterminatedString, ⟨⟨4, 5⟩, ⟨1, 5⟩⟩⟩ := by decide +kernel
  have hplain : tokenize lettered "x '" =
      .error ⟨.unterminatedString, ⟨⟨2, 3⟩, ⟨1, 3⟩⟩⟩ := by decide +kernel
  obtain ⟨-, -, hwoven⟩ := (tokenize_geometry lettered commented).1 commentedTokens hok
  obtain ⟨-, -, front, rest, us, hsource, hstart, hus, hrecut, -⟩ :=
    (tokenize_geometry lettered "x aa'").2 _ herror
  obtain ⟨-, -, front', rest', vs, hsource', hstart', hvs, -, hsame⟩ :=
    (tokenize_geometry lettered "x '").2 _ hplain
  have hletters : ∀ t ∈ readable lettered .start "x '".toList, ∀ c,
      t.kind = .punctuation c → startsWord c = false := by
    rw [readable_lettered]
    simp
  rw [hsame hletters, readable_lettered] at hvs
  exact ⟨hok, hwoven, herror, ⟨front, rest, us, hsource, hstart, hus, hrecut⟩, hplain,
    front', rest', hsource', hstart', hvs⟩

end Instance

end DdlSchema
