import DdlSchema.Proofs.Statement.Read
import DdlSchema.Proofs.Token.Trivia

/-! What a script has outside of its statements: white space, separators and whole comments. Only at the
end there may be more, a block comment that nothing closes. -/
namespace DdlSchema
namespace Statement

open Lexer (IsComment blockComment)

/-- White space, separators and whole comments. -/
inductive IsGap : List Char → Prop
  | nil : IsGap []
  | white {c : Char} {cs : List Char} (hc : Text.isWhiteSpace c = true) (hcs : IsGap cs) :
      IsGap (c :: cs)
  | separator {cs : List Char} (hcs : IsGap cs) : IsGap (';' :: cs)
  | comment {c cs : List Char} (hc : IsComment c) (hcs : IsGap cs) : IsGap (c ++ cs)

/-- The beginning of a block comment without its end. -/
def IsUnclosed (cs : List Char) : Prop := ∃ body, cs = '/' :: '*' :: body ∧ ¬['*', '/'] <:+: body

/-- A text that begins at some byte, as statements with gaps before, between and behind them. A gap
behind a statement begins with white space or a separator; at the end a line comment may do without its
newline. -/
inductive Laid : Nat → List Char → List Statement → Prop
  | last {n : Nat} {gap : List Char} (hgap : IsGap (gap ++ ['\n'])) : Laid n gap []
  | statement {n : Nat} {gap rest : List Char} {s : Statement} {ss : List Statement}
      (hgap : IsGap gap) (hne : s.text.toList ≠ []) (hstart : s.start = n + byteSize gap)
      (hbehind : ∀ c ∈ rest.head?, Text.isWhiteSpace c = true ∨ c = ';')
      (hrest : Laid s.stop rest ss) : Laid n (gap ++ (s.text.toList ++ rest)) (s :: ss)

section Gaps

variable {n : Nat} {gap cs : List Char} {ss : List Statement}

theorem IsGap.append (hgap : IsGap gap) (hcs : IsGap cs) : IsGap (gap ++ cs) := by
  induction hgap with
  | nil => exact hcs
  | white hc _ ih => exact .white hc ih
  | separator _ ih => exact .separator ih
  | comment hc _ ih =>
    rw [List.append_assoc]
    exact .comment hc ih

theorem IsGap.whites (h : ∀ c ∈ cs, Text.isWhiteSpace c = true) : IsGap cs := by
  induction cs with
  | nil => exact .nil
  | cons c cs ih =>
    exact .white (h c List.mem_cons_self) (ih fun d hd => h d (List.mem_cons_of_mem c hd))

theorem IsGap.newline (h : IsGap cs) : IsGap (cs ++ ['\n']) := h.append (.white (by decide) .nil)

theorem Laid.gap_append (hgap : IsGap gap) (h : Laid (n + byteSize gap) cs ss) :
    Laid n (gap ++ cs) ss := by
  cases h with
  | last hlast =>
    refine .last ?_
    rw [List.append_assoc]
    exact hgap.append hlast
  | @statement _ gap' rest s ss hgap' hne hstart hbehind hrest =>
    rw [← List.append_assoc]
    refine .statement (hgap.append hgap') hne ?_ hbehind hrest
    rw [hstart, byteSize_append, Nat.add_assoc]

end Gaps

namespace Segment

section Cutting

/-- Whether the first of some segments is a text up to its first separator, or all of it. -/
def Cuts (cs : List Char) (s : Segment × List Segment) : Prop :=
  s.1.text = cs ∧ s.2 = [] ∨ ∃ rest, cs = s.1.text ++ ';' :: rest ∧ s.2 = segments rest

theorem Cuts.push {cs : List Char} {s : Segment × List Segment} (h : Cuts cs s)
    (front : List Char) (isCode : Bool) : Cuts (front ++ cs) (push front isCode s) := by
  rcases h with ⟨htext, hmore⟩ | ⟨rest, hcs, hmore⟩
  · exact .inl ⟨by rw [push_text, htext], hmore⟩
  · exact .inr ⟨rest, by rw [push_text, List.append_assoc, ← hcs], hmore⟩

theorem cuts_read (m : Mode) (cs : List Char) : Cuts cs (read m cs) := by
  fun_induction read m cs with
  | case1 => exact .inl ⟨rfl, rfl⟩
  | case2 cs first more hread =>
    refine .inr ⟨cs, rfl, ?_⟩
    rw [segments, hread]
  | case3 cs ih => exact ih.push ['-', '-'] false
  | case4 cs ih => exact ih.push ['/', '*'] false
  | case5 cs ih => exact ih.push ['\''] true
  | case6 cs ih => exact ih.push ['"'] true
  | case7 cs ih => exact ih.push ['`'] true
  | case8 cs ih => exact ih.push ['['] true
  | case9 c cs _ _ _ _ _ _ _ ih => exact ih.push [c] _
  | case10 close c cs ih => exact ih.push [c] false
  | case11 c cs ih => exact ih.push [c] false
  | case12 cs ih => exact ih.push ['*', '/'] false
  | case13 c cs _ ih => exact ih.push [c] false

/-- Induction on the segments of a text. -/
theorem segments_induction {P : List Char → Prop}
    (last : ∀ cs isCode, read .code cs = (⟨cs, isCode⟩, []) → P cs)
    (separator : ∀ cs isCode rest,
      read .code (cs ++ ';' :: rest) = (⟨cs, isCode⟩, segments rest) → P rest →
        P (cs ++ ';' :: rest)) (cs : List Char) : P cs := by
  induction hlength : cs.length using Nat.strong_induction_on generalizing cs with
  | _ length ih =>
    have hcuts := cuts_read .code cs
    generalize hread : read .code cs = s at hcuts
    obtain ⟨⟨text, isCode⟩, more⟩ := s
    rcases hcuts with ⟨rfl, rfl⟩ | ⟨rest, rfl, rfl⟩
    · exact last _ isCode hread
    · refine separator text isCode rest hread (ih rest.length ?_ rest rfl)
      rw [← hlength, List.length_append, List.length_cons]
      omega

end Cutting

section Codeless

/-- What a text without code is up to its first separator. -/
inductive Codeless (s : Segment × List Segment) : Prop
  | gap (hgap : IsGap s.1.text)
  | last (hmore : s.2 = []) (hgap : IsGap (s.1.text ++ ['\n']))
  | unclosed {gap rest : List Char} (hmore : s.2 = []) (htext : s.1.text = gap ++ rest)
      (hgap : IsGap gap) (hrest : IsUnclosed rest)

variable {s : Segment × List Segment}

theorem Codeless.push {front : List Char} (hfront : IsGap front) (isCode : Bool)
    (h : Codeless s) : Codeless (push front isCode s) := by
  cases h with
  | gap hgap => exact .gap (hfront.append hgap)
  | last hmore hgap =>
    refine .last hmore ?_
    rw [push_text, List.append_assoc]
    exact hfront.append hgap
  | @unclosed gap rest hmore htext hgap hrest =>
    have htext' : (Segment.push front isCode s).1.text = (front ++ gap) ++ rest := by
      rw [push_text, htext, List.append_assoc]
    exact .unclosed hmore htext' (hfront.append hgap) hrest

theorem Codeless.comment {front : List Char} (hfront : IsComment front) (h : Codeless s) :
    Codeless (Segment.push front false s) := by
  have hgap := IsGap.comment hfront .nil
  rw [List.append_nil] at hgap
  exact h.push hgap false

theorem blockComment_eq_none_iff {cs : List Char} :
    blockComment cs = none ↔ ¬['*', '/'] <:+: cs := by
  fun_induction blockComment cs with
  | case1 => simp
  | case2 cs => simp [List.infix_cons_iff, List.cons_prefix_cons]
  | case3 c cs hend ih =>
    rw [Option.map_eq_none_iff, ih, List.infix_cons_iff, not_or, List.cons_prefix_cons]
    refine ⟨fun h => ⟨?_, h⟩, And.right⟩
    rintro ⟨rfl, hslash⟩
    obtain ⟨more, rfl⟩ := hslash
    exact hend more rfl rfl

theorem read_unclosed {cs : List Char} (h : blockComment cs = none) :
    read .blockComment cs = (⟨cs, false⟩, []) := by
  fun_induction blockComment cs with
  | case1 => rw [read]
  | case2 cs => cases h
  | case3 c cs hend ih =>
    rw [read, ih (Option.map_eq_none_iff.1 h)]
    · rfl
    · exact hend

/-- A line comment goes up to its newline, or up to the end of the text. -/
theorem read_lineComment_cases (cs : List Char) :
    '\n' ∉ cs ∧ read .lineComment cs = (⟨cs, false⟩, []) ∨
      ∃ body rest, '\n' ∉ body ∧ cs = body ++ '\n' :: rest ∧
        read .lineComment cs = push (body ++ ['\n']) false (read .code rest) := by
  by_cases hline : '\n' ∈ cs
  · obtain ⟨body, rest, rfl, hbody⟩ := List.eq_append_cons_of_mem hline
    refine .inr ⟨body, rest, hbody, rfl, ?_⟩
    rw [read_lineComment_append hbody, read, if_pos rfl, push_push]
    rfl
  · have hread := read_lineComment_append hline []
    rw [List.append_nil, read] at hread
    refine .inl ⟨hline, hread.trans ?_⟩
    simp [push]

/-- A block comment goes up to its first end mark, or up to the end of the text. -/
theorem read_blockComment_cases (cs : List Char) :
    ¬['*', '/'] <:+: cs ∧ read .blockComment cs = (⟨cs, false⟩, []) ∨
      ∃ body rest, ¬['*', '/'] <:+: body ++ ['*'] ∧ cs = body ++ '*' :: '/' :: rest ∧
        read .blockComment cs = push (body ++ ['*', '/']) false (read .code rest) := by
  cases h : blockComment cs with
  | none => exact .inl ⟨blockComment_eq_none_iff.1 h, read_unclosed h⟩
  | some p =>
    obtain ⟨taken, rest⟩ := p
    obtain ⟨body, rfl, hbody⟩ := Lexer.exists_body_of_blockComment h
    have hcs := Lexer.blockComment_append h
    exact .inr ⟨body, rest, hbody, by simpa using hcs.symm, read_blockComment h⟩

/-- A text without code up to its first separator has only gaps there. -/
theorem codeless_read (cs : List Char) (h : (read .code cs).1.hasCode = false) :
    Codeless (read .code cs) := by
  -- A comment is read as a whole, in modes of its own, so the induction is on the length of what is left.
  induction hlength : cs.length using Nat.strong_induction_on generalizing cs with
  | _ length ih =>
    have hrest (rest : List Char) (hlt : rest.length < cs.length)
        (hcode : (read .code rest).1.hasCode = false) : Codeless (read .code rest) :=
      ih rest.length (hlength ▸ hlt) rest hcode rfl
    clear ih hlength
    suffices hs : ∀ s, read .code cs = s → s.1.hasCode = false → Codeless s from hs _ rfl h
    clear h
    generalize hm : Mode.code = m
    fun_cases read m cs with
    | case1 =>
      rintro _ rfl _
      exact .gap .nil
    | case2 cs first more hread =>
      rintro _ rfl _
      exact .gap .nil
    | case3 cs =>
      rintro _ rfl h
      rcases read_lineComment_cases cs with ⟨hline, hread⟩ | ⟨body, rest, hbody, rfl, hread⟩
      · refine .last (by rw [hread]; rfl) ?_
        have hcomment := IsGap.comment (.line hline) .nil
        rw [hread]
        simpa using hcomment
      · rw [hread, push_push] at h ⊢
        have hlt : rest.length < ('-' :: '-' :: (body ++ '\n' :: rest)).length := by
          simp
          omega
        exact .comment (.line hbody) (hrest rest hlt (by simpa using h))
    | case4 cs =>
      rintro _ rfl h
      rcases read_blockComment_cases cs with ⟨hmark, hread⟩ | ⟨body, rest, hbody, rfl, hread⟩
      · rw [hread]
        exact .unclosed rfl (List.nil_append _).symm .nil ⟨cs, rfl, hmark⟩
      · rw [hread, push_push] at h ⊢
        have hlt : rest.length < ('/' :: '*' :: (body ++ '*' :: '/' :: rest)).length := by
          simp
          omega
        exact .comment (.block hbody) (hrest rest hlt (by simpa using h))
    | case5 | case6 | case7 | case8 =>
      rintro _ rfl h
      cases h
    | case9 c cs =>
      rintro _ rfl h
      obtain ⟨hwhite, hcode⟩ := Bool.or_eq_false_iff.1 h
      have hc : Text.isWhiteSpace c = true := by simpa using hwhite
      exact (hrest cs (by simp) hcode).push (.white hc .nil) _
    | _ => cases hm

end Codeless

end Segment

section Trimming

theorem head_of_trail {trail rest : List Char} (htrail : ∀ c ∈ trail, Text.isWhiteSpace c = true)
    (hrest : ∀ c ∈ rest.head?, c = ';') :
    ∀ c ∈ (trail ++ rest).head?, Text.isWhiteSpace c = true ∨ c = ';' := by
  intro c hc
  cases trail with
  | nil => exact .inr (hrest c hc)
  | cons d trail =>
    obtain rfl := Option.some.inj hc
    exact .inl (htrail d List.mem_cons_self)

/-- A segment is its statement between white space. -/
theorem Segment.exists_trim (s : Segment) (n : Nat) :
    ∃ lead trail, (∀ c ∈ lead, Text.isWhiteSpace c = true) ∧
      (∀ c ∈ trail, Text.isWhiteSpace c = true) ∧
      s.text = lead ++ ((s.trim n).text.toList ++ trail) ∧
      (s.trim n).start = n + byteSize lead := by
  obtain ⟨hlead, -⟩ := Lexer.of_takeWhile (p := Text.isWhiteSpace) s.text
  obtain ⟨htrail, -⟩ := Lexer.of_takeWhile (p := Text.isWhiteSpace)
    (Text.trimStart s.text).reverse
  refine ⟨_, ((Text.trimStart s.text).reverse.takeWhile Text.isWhiteSpace).reverse, hlead,
    fun c hc => htrail c (List.mem_reverse.1 hc), ?_, rfl⟩
  rw [trim, String.toList_ofList, Text.trimEnd, ← List.reverse_append,
    List.takeWhile_append_dropWhile, List.reverse_reverse, Text.trimStart,
    List.takeWhile_append_dropWhile]

/-- A segment with code has more than white space. -/
theorem Segment.exists_code {m : Mode} {cs : List Char} (h : (read m cs).1.hasCode = true) :
    ∃ c ∈ (read m cs).1.text, Text.isWhiteSpace c = false := by
  have hpush {front : List Char} {s : Segment × List Segment}
      (hs : ∃ c ∈ s.1.text, Text.isWhiteSpace c = false) (isCode : Bool) :
      ∃ c ∈ (push front isCode s).1.text, Text.isWhiteSpace c = false := by
    obtain ⟨c, hc, hcode⟩ := hs
    exact ⟨c, List.mem_append_right front hc, hcode⟩
  fun_induction read m cs with
  | case1 => cases h
  | case2 => cases h
  | case5 | case6 | case7 | case8 => exact ⟨_, List.mem_cons_self, by decide⟩
  | case9 c cs _ _ _ _ _ _ _ ih =>
    rcases Bool.or_eq_true_iff.1 h with hc | hcode
    · exact ⟨c, List.mem_cons_self, by simpa using hc⟩
    · exact hpush (ih hcode) _
  | case3 cs ih | case4 cs ih | case12 cs ih => exact hpush (ih h) _
  | case10 close c cs ih => exact hpush (ih h) _
  | case11 c cs ih => exact hpush (ih h) _
  | case13 c cs _ ih => exact hpush (ih h) _

theorem Segment.trim_ne_nil {cs : List Char} (h : (read .code cs).1.hasCode = true) (n : Nat) :
    ((read .code cs).1.trim n).text.toList ≠ [] := by
  obtain ⟨lead, trail, hlead, htrail, htext, -⟩ := (read .code cs).1.exists_trim n
  obtain ⟨c, hc, hcode⟩ := exists_code h
  intro hnil
  rw [htext, hnil, List.nil_append] at hc
  have hwhite : Text.isWhiteSpace c = true := (List.mem_append.1 hc).elim (hlead c) (htrail c)
  rw [hcode] at hwhite
  cases hwhite

/-- Whether a statement stands in a text that begins at some byte, in front of white space, a separator
or the end. -/
def StandsIn (n : Nat) (cs : List Char) (s : Statement) : Prop :=
  ∃ before behind, cs = before ++ (s.text.toList ++ behind) ∧ s.text.toList ≠ [] ∧
    s.start = n + byteSize before ∧ ∀ c ∈ behind.head?, Text.isWhiteSpace c = true ∨ c = ';'

theorem standsIn_trim {text more : List Char}
    (hread : (Segment.read .code (text ++ more)).1 = ⟨text, true⟩)
    (hmore : ∀ c ∈ more.head?, c = ';') (n : Nat) :
    StandsIn n (text ++ more) (Segment.trim n ⟨text, true⟩) := by
  have hcode : (Segment.read .code (text ++ more)).1.hasCode = true := by rw [hread]
  have hne := Segment.trim_ne_nil hcode n
  rw [hread] at hne
  obtain ⟨lead, trail, -, htrail, htext, hstart⟩ := Segment.exists_trim ⟨text, true⟩ n
  refine ⟨lead, trail ++ more, ?_, hne, hstart, head_of_trail htrail hmore⟩
  have hparts := congrArg (· ++ more) htext
  simpa using hparts

theorem standsIn_of_mem {n : Nat} {cs : List Char} {s : Statement}
    (hs : s ∈ ofSegments n (Segment.segments cs)) : StandsIn n cs s := by
  induction cs using Segment.segments_induction generalizing n with
  | last cs isCode hread =>
    rw [Segment.segments, hread] at hs
    cases isCode with
    | false => cases hs
    | true =>
      obtain rfl := List.mem_singleton.1 hs
      have hend : (Segment.read .code (cs ++ [])).1 = ⟨cs, true⟩ := by rw [List.append_nil, hread]
      have hstands := standsIn_trim hend (by simp) n
      rwa [List.append_nil] at hstands
  | separator cs isCode rest hread ih =>
    rw [Segment.segments, hread] at hs
    have hrest (hs : s ∈ ofSegments (n + byteSize cs + 1) (Segment.segments rest)) :
        StandsIn n (cs ++ ';' :: rest) s := by
      obtain ⟨before, behind, rfl, hne, hstart, hbehind⟩ := ih hs
      have hsize : (';' : Char).utf8Size = 1 := rfl
      refine ⟨cs ++ ';' :: before, behind, by simp, hne, ?_, hbehind⟩
      rw [hstart, byteSize_append, byteSize_cons, hsize]
      omega
    cases isCode with
    | false => exact hrest hs
    | true =>
      rcases List.mem_cons.1 hs with rfl | hs
      · exact standsIn_trim (by rw [hread]) (by simp) n
      · exact hrest hs

end Trimming

end Statement
end DdlSchema
