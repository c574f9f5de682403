import DdlSchema.Proofs.Statement.Outside

/-! Splitting is stable: a statement on its own is split into just itself, and statements that stand in
lines of their own, with a separator in a line between two of them, are found again. What decides it is
the mode in which a statement leaves the reading of its script. -/
namespace DdlSchema
namespace Statement

/-- Whether a quote that the reading is in is closed by a character that trimming leaves. -/
def Mode.ClosesVisibly : Mode → Prop
  | .quoted close => Text.isWhiteSpace close = false
  | _ => True

/-- Whether a newline brings the reading back to code. -/
def Mode.EndsWithLine (m : Mode) : Prop := m = .code ∨ m = .lineComment

namespace Segment

variable {m m' : Mode} {cs trail rest : List Char}

section Modes

/-- Whether a text completes no pair that opens or closes a comment, whatever stands in front. -/
def IsApart (rest : List Char) : Prop := ∀ c ∈ rest.head?, c ∉ ['-', '*', '/']

/-- Characters that go into the segment they stand in, with what stands behind them read in another
mode. -/
def Leaves (m : Mode) (cs : List Char) (isCode : Bool) (m' : Mode) : Prop :=
  ∀ rest, IsApart rest → read m (cs ++ rest) = push cs isCode (read m' rest)

/-- Whether the first segment ends inside a text, whatever stands behind. -/
def EndsInside (m : Mode) (cs : List Char) : Prop :=
  ∀ rest, IsApart rest → (read m (cs ++ rest)).1.text.length < cs.length

/-- Whether the reading of a text leaves it in some mode or comes to a separator in it. -/
def LeavesOrEnds (m : Mode) (cs : List Char) : Prop :=
  (∃ isCode m', m'.ClosesVisibly ∧ Leaves m cs isCode m') ∨ EndsInside m cs

theorem LeavesOrEnds.push (front : List Char) (isCode : Bool) (h : LeavesOrEnds m' cs)
    (hread : ∀ rest, IsApart rest →
      read m (front ++ (cs ++ rest)) = push front isCode (read m' (cs ++ rest))) :
    LeavesOrEnds m (front ++ cs) := by
  rcases h with ⟨isCode', m'', hm, hleaves⟩ | hends
  · refine .inl ⟨isCode || isCode', m'', hm, fun rest hrest => ?_⟩
    rw [List.append_assoc, hread rest hrest, hleaves rest hrest, push_push]
  · refine .inr fun rest hrest => ?_
    have hlength := hends rest hrest
    rw [List.append_assoc, hread rest hrest, push_text, List.length_append, List.length_append]
    omega

/-- No pair of signs lies across the place in front of what stands apart. -/
theorem IsApart.no_pair (hrest : IsApart rest) {d : Char} (hd : d ∈ ['-', '*', '/'])
    (hcs : ∀ cs', cs = d :: cs' → False) (cs' : List Char) : cs ++ rest ≠ d :: cs' := by
  intro h
  cases cs with
  | nil => exact hrest d (by rw [← List.nil_append rest, h]; rfl) hd
  | cons c cs =>
    obtain ⟨rfl, -⟩ := List.cons.inj h
    exact hcs cs rfl

theorem leavesOrEnds (m : Mode) (cs : List Char) (hm : m.ClosesVisibly) : LeavesOrEnds m cs := by
  fun_induction read m cs with
  | case1 m => exact .inl ⟨false, m, hm, fun _ _ => rfl⟩
  | case2 cs => exact .inr fun rest _ => by rw [List.cons_append, read]; exact Nat.succ_pos _
  | case3 cs ih =>
    refine (ih trivial).push ['-', '-'] false fun rest _ => ?_
    rw [List.cons_append, List.singleton_append, read]
  | case4 cs ih =>
    refine (ih trivial).push ['/', '*'] false fun rest _ => ?_
    rw [List.cons_append, List.singleton_append, read]
  | case5 cs ih | case6 cs ih | case7 cs ih | case8 cs ih =>
    refine (ih rfl).push [_] true fun rest _ => ?_
    rw [List.singleton_append, read]
  | case9 c cs hsep hline hblock hsingle hdouble hbacktick hbracket ih =>
    refine (ih trivial).push [c] (!Text.isWhiteSpace c) fun rest hrest => ?_
    -- Only two of the conditions of the last case look at what stands behind the character.
    have hline' (cs' : List Char) (hc : c = '-') : cs ++ rest ≠ '-' :: cs' :=
      hrest.no_pair (by decide) (fun cs' => hline cs' hc) cs'
    have hblock' (cs' : List Char) (hc : c = '/') : cs ++ rest ≠ '*' :: cs' :=
      hrest.no_pair (by decide) (fun cs' => hblock cs' hc) cs'
    rw [List.singleton_append, read] <;> assumption
  | case10 close c cs ih =>
    refine (ih ?_).push [c] false fun rest _ => ?_
    · split
      · trivial
      · exact hm
    · rw [List.singleton_append, read]
  | case11 c cs ih =>
    refine (ih ?_).push [c] false fun rest _ => ?_
    · split <;> trivial
    · rw [List.singleton_append, read]
  | case12 cs ih =>
    refine (ih trivial).push ['*', '/'] false fun rest _ => ?_
    rw [List.cons_append, List.singleton_append, read]
  | case13 c cs hend ih =>
    refine (ih trivial).push [c] false fun rest hrest => ?_
    have hend' (cs' : List Char) (hc : c = '*') : cs ++ rest ≠ '/' :: cs' :=
      hrest.no_pair (by decide) (fun cs' => hend cs' hc) cs'
    rw [List.singleton_append, read]
    exact hend'

theorem isApart_of_head (h : ∀ c ∈ rest.head?, Text.isWhiteSpace c = true ∨ c = ';') :
    IsApart rest := by
  intro c hc hmem
  rcases h c hc with hwhite | rfl
  · have hvisible := Lexer.eq_false_of_mem (p := Text.isWhiteSpace) (by decide) hmem
    rw [hvisible] at hwhite
    cases hwhite
  · revert hmem
    decide

/-- Where white space and then a separator end the segment, the reading is not in a quote or in a block
comment. -/
theorem endsWithLine_of_text (hm : m.ClosesVisibly)
    (htrail : ∀ c ∈ trail, Text.isWhiteSpace c = true)
    (htext : (read m (trail ++ ';' :: rest)).1.text = trail) : m.EndsWithLine := by
  cases m with
  | code => exact .inl rfl
  | lineComment => exact .inr rfl
  | quoted close =>
    exfalso
    induction trail with
    | nil => rw [List.nil_append, read] at htext; cases htext
    | cons c trail ih =>
      obtain ⟨hc, htrail⟩ := List.forall_mem_cons.1 htrail
      have hne : c ≠ close := by
        rintro rfl
        rw [Mode.ClosesVisibly, hc] at hm
        cases hm
      rw [List.cons_append, read, if_neg hne, push_text] at htext
      exact ih htrail (List.cons.inj htext).2
  | blockComment =>
    exfalso
    induction trail with
    | nil => rw [List.nil_append, read] at htext; cases htext; nofun
    | cons c trail ih =>
      obtain ⟨hc, htrail⟩ := List.forall_mem_cons.1 htrail
      rw [List.cons_append, read, push_text] at htext
      · exact ih htrail (List.cons.inj htext).2
      · rintro cs' rfl
        cases hc

end Modes

end Segment

section Statements

open Segment (IsApart Leaves)

variable {m : Mode} {n : Nat} {text front trail more : List Char} {sts : List String}

/-- A text that begins and ends with a character that is no white space. -/
structure IsTrimmed (text : List Char) : Prop where
  head : ∃ c, text.head? = some c ∧ Text.isWhiteSpace c = false
  last : ∃ c, text.getLast? = some c ∧ Text.isWhiteSpace c = false

/-- A text that is one statement and leaves the reading in some mode. -/
structure IsWhole (m : Mode) (text : List Char) : Prop extends IsTrimmed text where
  leaves : Leaves .code text true m

/-- Texts that are statements, of which only the last one may leave something open. -/
inductive Rejoins : List String → Prop
  | nil : Rejoins []
  | last {m : Mode} {s : String} (hs : IsWhole m s.toList) : Rejoins [s]
  | cons {m : Mode} {s : String} {sts : List String} (hs : IsWhole m s.toList) (hm : m.EndsWithLine)
      (hsts : Rejoins sts) : Rejoins (s :: sts)

/-- White space around a text is all that trimming takes from it. -/
theorem IsTrimmed.trim (h : IsTrimmed text) (hfront : ∀ c ∈ front, Text.isWhiteSpace c = true)
    (htrail : ∀ c ∈ trail, Text.isWhiteSpace c = true) :
    Text.trimEnd (Text.trimStart (front ++ (text ++ trail))) = text := by
  obtain ⟨c, hhead, hc⟩ := h.head
  obtain ⟨d, hlast, hd⟩ := h.last
  obtain ⟨cs, rfl⟩ := List.head?_eq_some_iff.1 hhead
  obtain ⟨ds, hds⟩ := List.getLast?_eq_some_iff.1 hlast
  have hstart : Text.trimStart (front ++ (c :: cs ++ trail)) = c :: cs ++ trail := by
    rw [Text.trimStart, List.dropWhile_append_of_pos hfront, List.cons_append,
      List.dropWhile_cons_of_neg (by simp [hc])]
  have hreverse : ∀ c ∈ trail.reverse, Text.isWhiteSpace c = true :=
    fun c hc => htrail c (List.mem_reverse.1 hc)
  rw [hstart, Text.trimEnd, List.reverse_append, List.dropWhile_append_of_pos hreverse, hds,
    List.reverse_concat, List.dropWhile_cons_of_neg (by simp [hd]), ← List.reverse_concat,
    List.reverse_reverse]

theorem isTrimmed_trim {s : Segment} (hne : (s.trim n).text.toList ≠ []) :
    IsTrimmed (s.trim n).text.toList := by
  obtain ⟨-, hhead⟩ := Lexer.of_takeWhile (p := Text.isWhiteSpace) s.text
  obtain ⟨-, hlast⟩ := Lexer.of_takeWhile (p := Text.isWhiteSpace) (Text.trimStart s.text).reverse
  rw [Segment.trim, String.toList_ofList] at hne ⊢
  have hsplit : Text.trimStart s.text = Text.trimEnd (Text.trimStart s.text) ++
      ((Text.trimStart s.text).reverse.takeWhile Text.isWhiteSpace).reverse := by
    rw [Text.trimEnd, ← List.reverse_append, List.takeWhile_append_dropWhile, List.reverse_reverse]
  obtain ⟨c, cs, hcs⟩ := List.exists_cons_of_ne_nil hne
  obtain ⟨d, hd⟩ := Option.ne_none_iff_exists'.1 (mt List.getLast?_eq_none_iff.1 hne)
  refine ⟨⟨c, by rw [hcs]; rfl, hhead c ?_⟩, d, hd, hlast d ?_⟩
  · rw [hcs] at hsplit
    exact Option.mem_def.2 (congrArg List.head? hsplit)
  · rwa [Text.trimEnd, List.getLast?_reverse] at hd

/-- A segment with code is trimmed to a whole statement, with nothing left open in front of a separator. -/
theorem exists_isWhole (hread : (Segment.read .code (text ++ more)).1 = ⟨text, true⟩)
    (hmore : more = [] ∨ ∃ rest, more = ';' :: rest) (n : Nat) :
    ∃ m, IsWhole m (Segment.trim n ⟨text, true⟩).text.toList ∧ (more ≠ [] → m.EndsWithLine) := by
  have hcode : (Segment.read .code (text ++ more)).1.hasCode = true := by rw [hread]
  have hne := Segment.trim_ne_nil hcode n
  rw [hread] at hne
  have htrimmed := isTrimmed_trim hne
  obtain ⟨lead, trail, hlead, htrail, htext, -⟩ := Segment.exists_trim ⟨text, true⟩ n
  generalize (Segment.trim n ⟨text, true⟩).text.toList = core at hne htrimmed htext
  obtain rfl : text = lead ++ (core ++ trail) := htext
  have hseparator : ∀ c ∈ more.head?, c = ';' := by
    rcases hmore with rfl | ⟨rest, rfl⟩
    · nofun
    · simp
  have hapart := Segment.isApart_of_head (head_of_trail htrail hseparator)
  -- The white space in front is read as it stands, so the statement is read from its own start on.
  have hwhite := Segment.passes_white hlead (core ++ (trail ++ more))
  rw [Segment.Passes] at hwhite
  rw [List.append_assoc, List.append_assoc, hwhite] at hread
  have hcore : (Segment.read .code (core ++ (trail ++ more))).1.text = core ++ trail :=
    List.append_cancel_left (congrArg Segment.text hread)
  have hcode' : (Segment.read .code (core ++ (trail ++ more))).1.hasCode = true :=
    congrArg Segment.hasCode hread
  rcases Segment.leavesOrEnds .code core trivial with ⟨isCode, m, hm, hleaves⟩ | hends
  · rw [hleaves _ hapart] at hcore hcode'
    have htext : (Segment.read m (trail ++ more)).1.text = trail := List.append_cancel_left hcore
    have hnone : (Segment.read m (trail ++ more)).1.hasCode ≠ true := by
      intro h
      obtain ⟨c, hc, hvisible⟩ := Segment.exists_code h
      rw [htext] at hc
      rw [htrail c hc] at hvisible
      cases hvisible
    obtain rfl : isCode = true := by simpa [hnone] using hcode'
    refine ⟨m, ⟨htrimmed, hleaves⟩, fun hne => ?_⟩
    obtain ⟨rest, rfl⟩ := hmore.resolve_left hne
    exact Segment.endsWithLine_of_text hm htrail htext
  · have hlength := hends _ hapart
    rw [hcore, List.length_append] at hlength
    omega

theorem rejoins_ofSegments (n : Nat) (cs : List Char) :
    Rejoins ((ofSegments n (Segment.segments cs)).map (·.text)) := by
  induction cs using Segment.segments_induction generalizing n with
  | last cs isCode hread =>
    rw [Segment.segments, hread]
    cases isCode with
    | false => exact .nil
    | true =>
      have hend : (Segment.read .code (cs ++ [])).1 = ⟨cs, true⟩ := by rw [List.append_nil, hread]
      obtain ⟨m, hwhole, -⟩ := exists_isWhole hend (.inl rfl) n
      exact .last hwhole
  | separator cs isCode rest hread ih =>
    rw [Segment.segments, hread]
    cases isCode with
    | false => exact ih _
    | true =>
      obtain ⟨m, hwhole, hends⟩ := exists_isWhole (by rw [hread]) (.inr ⟨rest, rfl⟩) n
      exact .cons hwhole (hends (List.cons_ne_nil _ _)) (ih _)

end Statements

section Joining

variable {m : Mode} {front : List Char} {s : String} {sts : List String}

theorem IsWhole.segments_last (h : IsWhole m s.toList) (hfront : ∀ c ∈ front, Text.isWhiteSpace c = true) :
    Segment.segments (front ++ s.toList) = [⟨front ++ s.toList, true⟩] := by
  have hleaves := h.leaves [] nofun
  have hwhite := Segment.passes_white hfront s.toList
  rw [List.append_nil, Segment.read] at hleaves
  rw [Segment.segments, hwhite, hleaves, Segment.push_push]
  simp [Segment.push]

theorem newline_white : ∀ c ∈ ['\n'], Text.isWhiteSpace c = true :=
  List.forall_mem_singleton.2 (by decide)

/-- A newline behind a statement ends its line, so that the separator in the next line ends it. -/
theorem IsWhole.segments_line (h : IsWhole m s.toList) (hm : m.EndsWithLine)
    (hfront : ∀ c ∈ front, Text.isWhiteSpace c = true) (rest : List Char) :
    Segment.segments (front ++ (s.toList ++ ['\n']) ++ ';' :: rest) =
      ⟨front ++ (s.toList ++ ['\n']), true⟩ :: Segment.segments rest := by
  have hnewline (behind : List Char) : Segment.read m ('\n' :: behind) =
      Segment.push ['\n'] false (Segment.read .code behind) := by
    rcases hm with rfl | rfl
    · exact Segment.passes_white newline_white behind
    · rw [Segment.read, if_pos rfl]
  have hapart : Segment.IsApart ('\n' :: ';' :: rest) := by
    intro c hc
    obtain rfl := Option.some.inj hc
    decide
  have hline : Segment.Passes (s.toList ++ ['\n']) true (';' :: rest) := by
    rw [Segment.Passes, List.append_assoc, List.singleton_append, h.leaves _ hapart, hnewline,
      Segment.push_push]
    rfl
  exact Segment.segments_append_separator ((Segment.passes_white hfront _).append hline)

/-- Statements with a separator in a line between two of them are found again, behind any white space. -/
theorem Rejoins.ofSegments_intercalate (h : Rejoins sts) (n : Nat)
    (hfront : ∀ c ∈ front, Text.isWhiteSpace c = true) :
    (ofSegments n (Segment.segments (front ++ ("\n;\n".intercalate sts).toList))).map (·.text) = sts := by
  have hlast {m : Mode} {s : String} (hs : IsWhole m s.toList) {front : List Char} (n : Nat)
      (hfront : ∀ c ∈ front, Text.isWhiteSpace c = true) :
      (ofSegments n (Segment.segments (front ++ s.toList))).map (·.text) = [s] := by
    have htrim := hs.toIsTrimmed.trim hfront (List.forall_mem_nil _)
    rw [List.append_nil] at htrim
    rw [hs.segments_last hfront, ofSegments, if_pos rfl, ofSegments]
    simp [Segment.trim, htrim]
  induction h generalizing front n with
  | nil =>
    have hwhite := Segment.passes_white hfront []
    have hjoined : ("\n;\n".intercalate []).toList = [] := rfl
    rw [hjoined, Segment.segments, hwhite]
    rfl
  | last hs => simpa using hlast hs n hfront
  | @cons m s sts hs hm hsts ih =>
    cases sts with
    | nil => simpa using hlast hs n hfront
    | cons next sts =>
      have htext : front ++ ("\n;\n".intercalate (s :: next :: sts)).toList =
          front ++ (s.toList ++ ['\n']) ++
            ';' :: (['\n'] ++ ("\n;\n".intercalate (next :: sts)).toList) := by
        rw [String.intercalate_cons_cons]
        simp [String.toList_append]
      have htrim := hs.toIsTrimmed.trim hfront newline_white
      rw [htext, hs.segments_line hm hfront, ofSegments, if_pos rfl, List.map_cons, ih _ newline_white,
        Segment.trim, htrim, String.ofList_toList]

end Joining

section Scripts

theorem split_eq_ofSegments (script : String) :
    split script = ofSegments 0 (Segment.segments script.toList) := rfl

theorem Rejoins.exists_isWhole {sts : List String} (h : Rejoins sts) {s : String} (hs : s ∈ sts) :
    ∃ m, IsWhole m s.toList := by
  induction h with
  | nil => cases hs
  | last hwhole =>
    obtain rfl := List.mem_singleton.1 hs
    exact ⟨_, hwhole⟩
  | cons hwhole _ _ ih =>
    rcases List.mem_cons.1 hs with rfl | hs
    · exact ⟨_, hwhole⟩
    · exact ih hs

theorem IsWhole.split_eq {m : Mode} {s : String} (h : IsWhole m s.toList) : split s = [⟨0, s⟩] := by
  have hsegments := h.segments_last (List.forall_mem_nil _)
  have htrim := h.toIsTrimmed.trim (List.forall_mem_nil _) (List.forall_mem_nil _)
  obtain ⟨c, hhead, hc⟩ := h.head
  obtain ⟨cs, hcs⟩ := List.head?_eq_some_iff.1 hhead
  have hlead : s.toList.takeWhile Text.isWhiteSpace = [] := by
    rw [hcs, List.takeWhile_cons_of_neg (by simp [hc])]
  rw [List.nil_append, List.append_nil] at htrim
  rw [List.nil_append] at hsegments
  rw [split_eq_ofSegments, hsegments, ofSegments, if_pos rfl, ofSegments, Segment.trim, hlead, htrim,
    String.ofList_toList]
  rfl

theorem Segment.trim_within (s : Segment) (n : Nat) :
    n ≤ (s.trim n).start ∧ (s.trim n).stop ≤ n + byteSize s.text := by
  obtain ⟨lead, trail, -, -, htext, hstart⟩ := s.exists_trim n
  have hsize := congrArg byteSize htext
  simp only [byteSize_append] at hsize
  rw [stop]
  omega

/-- A statement ends in front of the separator behind which the next one begins. -/
theorem pairwise_ofSegments (n : Nat) (cs : List Char) :
    (∀ s ∈ ofSegments n (Segment.segments cs), n ≤ s.start) ∧
      (ofSegments n (Segment.segments cs)).Pairwise fun s t => s.stop < t.start := by
  induction cs using Segment.segments_induction generalizing n with
  | last cs isCode hread =>
    have hsegments : Segment.segments cs = [⟨cs, isCode⟩] := by rw [Segment.segments, hread]
    rw [hsegments]
    cases isCode with
    | false => exact ⟨List.forall_mem_nil _, .nil⟩
    | true =>
      have hwithin := Segment.trim_within ⟨cs, true⟩ n
      exact ⟨List.forall_mem_singleton.2 hwithin.1, List.pairwise_singleton _ _⟩
  | separator cs isCode rest hread ih =>
    have hsegments : Segment.segments (cs ++ ';' :: rest) = ⟨cs, isCode⟩ :: Segment.segments rest := by
      rw [Segment.segments, hread]
    rw [hsegments]
    obtain ⟨hstart, hpairwise⟩ := ih (n + byteSize cs + 1)
    have hrest : ∀ s ∈ ofSegments (n + byteSize cs + 1) (Segment.segments rest), n ≤ s.start := by
      intro s hs
      have hnext := hstart s hs
      omega
    cases isCode with
    | false => exact ⟨hrest, hpairwise⟩
    | true =>
      obtain ⟨hfirst, hstop⟩ := Segment.trim_within ⟨cs, true⟩ n
      refine ⟨List.forall_mem_cons.2 ⟨hfirst, hrest⟩, hpairwise.cons fun t ht => ?_⟩
      have hnext := hstart t ht
      dsimp only at hstop
      omega

/-- Splitting is stable. The statements of a script are parts of it, one behind the other and apart, and
none begins or ends with white space. Each on its own is split into just itself, and with a separator in
a line between two of them they are found again. -/
theorem split_stable (script : String) :
    (∀ s ∈ split script,
      (∃ before behind, script.toList = before ++ (s.text.toList ++ behind) ∧
        s.extent = ⟨byteSize before, byteSize (before ++ s.text.toList)⟩) ∧
      s.start < s.stop ∧ s.stop ≤ byteSize script.toList ∧ IsTrimmed s.text.toList ∧
      split s.text = [⟨0, s.text⟩]) ∧
    (split script).Pairwise (fun s t => s.stop < t.start) ∧
    (split ("\n;\n".intercalate ((split script).map (·.text)))).map (·.text) =
      (split script).map (·.text) := by
  have hrejoins := rejoins_ofSegments 0 script.toList
  have hpairwise := (pairwise_ofSegments 0 script.toList).2
  rw [← split_eq_ofSegments] at hrejoins hpairwise
  have hagain := hrejoins.ofSegments_intercalate 0 (List.forall_mem_nil _)
  rw [List.nil_append, ← split_eq_ofSegments] at hagain
  refine ⟨fun s hs => ?_, hpairwise, hagain⟩
  obtain ⟨m, hwhole⟩ := hrejoins.exists_isWhole (List.mem_map_of_mem hs)
  obtain ⟨before, behind, hscript, hne, hstart, -⟩ := standsIn_of_mem hs
  rw [Nat.zero_add] at hstart
  have hstop : s.stop = byteSize (before ++ s.text.toList) := by rw [stop, hstart, byteSize_append]
  have hpos := byteSize_pos hne
  have hsize := congrArg byteSize hscript
  simp only [byteSize_append] at hsize hstop
  refine ⟨⟨before, behind, hscript, ?_⟩, by omega, by omega, hwhole.toIsTrimmed, hwhole.split_eq⟩
  rw [extent, hstart, hstop, byteSize_append]

/-- Trimming takes the newline that ends a comment, and the last statement may leave a quote open. -/
example : split "x --\n;;\n y 'a;" = [⟨0, "x --"⟩, ⟨9, "y 'a;"⟩] := by decide

end Scripts

end Statement
end DdlSchema
