import DdlSchema.Proofs.Mold.Places

/-! The extents of a mold tree are the texts of its forms. The text of a form that defines the words it
refers to has the same tree on its own. -/
namespace DdlSchema
namespace Mold

section Texts

variable {start : Nat} {cs : List Char} {ts before after : List Token} {t : Token}

/-- What is longest in front of a text is longest in front of a part of it. -/
theorem IsLongest.of_append {kind : Option TokenKind} {taken rest more : List Char}
    (h : IsLongest kind taken (rest ++ more)) : IsLongest kind taken rest := by
  refine ⟨h.matches_taken, fun kind' taken' rest' htext hmatch => ?_⟩
  refine h.length_le kind' taken' (rest' ++ more) ?_ hmatch
  rw [← List.append_assoc, htext, List.append_assoc]

theorem Matches.eq_of_opening (h : Matches (some .opening) cs) : cs = ['('] := by
  cases h
  rfl

theorem Matches.eq_of_closing (h : Matches (some .closing) cs) : cs = [')'] := by
  cases h
  rfl

theorem Splits.matches_text (h : Splits start cs ts) : ∀ t ∈ ts, Matches (some t.kind) t.text := by
  induction h with
  | nil => nofun
  | trivia _ _ ih => exact ih
  | token hlongest _ ih => exact List.forall_mem_cons.2 ⟨hlongest.matches_taken, ih⟩

/-- Where a token stands, the text splits into it and the tokens behind it. -/
theorem Splits.exists_behind (h : Splits start cs (before ++ t :: after)) :
    ∃ front behind, cs = front ++ (t.text ++ behind) ∧ t.extent.start = start + byteSize front ∧
      Splits t.extent.start (t.text ++ behind) (t :: after) := by
  generalize hts : before ++ t :: after = ts at h
  induction h generalizing before with
  | nil => simp at hts
  | @trivia start taken rest ts _ _ ih =>
    obtain ⟨front, behind, rfl, hstart, hsplits⟩ := ih hts
    exact ⟨taken ++ front, behind, by simp, by simp [hstart, Nat.add_assoc], hsplits⟩
  | @token start kind taken rest ts hlongest hrest ih =>
    cases before with
    | nil =>
      obtain ⟨rfl, rfl⟩ := List.cons.inj hts
      exact ⟨[], rest, rfl, rfl, .token hlongest hrest⟩
    | cons b before =>
      obtain ⟨front, behind, rfl, hstart, hsplits⟩ := ih (List.cons.inj hts).2
      exact ⟨taken ++ front, behind, by simp, by simp [hstart, Nat.add_assoc], hsplits⟩

/-- The text up to a token splits into that token and those before it. -/
theorem Splits.exists_upTo (h : Splits start cs (before ++ t :: after)) :
    ∃ front behind, cs = front ++ t.text ++ behind ∧ t.extent.stop = start + byteSize (front ++ t.text) ∧
      Splits start (front ++ t.text) (before ++ [t]) := by
  generalize hts : before ++ t :: after = ts at h
  induction h generalizing before with
  | nil => simp at hts
  | @trivia start taken rest ts hlongest _ ih =>
    obtain ⟨front, behind, rfl, hstop, hsplits⟩ := ih hts
    refine ⟨taken ++ front, behind, by simp, by simp [hstop, Nat.add_assoc], ?_⟩
    rw [List.append_assoc]
    exact .trivia hlongest.of_append hsplits
  | @token start kind taken rest ts hlongest hrest ih =>
    cases before with
    | nil =>
      obtain ⟨rfl, rfl⟩ := List.cons.inj hts
      refine ⟨[], rest, rfl, rfl, ?_⟩
      have hlast : IsLongest (some kind) taken [] := hlongest.of_append
      simpa using Splits.token hlast (.nil (start + byteSize taken))
    | cons b before =>
      obtain ⟨rfl, htail⟩ := List.cons.inj hts
      obtain ⟨front, behind, rfl, hstop, hsplits⟩ := ih htail
      refine ⟨taken ++ front, behind, by simp, by simp [hstop, Nat.add_assoc], ?_⟩
      rw [List.append_assoc]
      exact .token hlongest.of_append hsplits

/-- Tokens that are not empty and of which none begins before an earlier one has ended. -/
structure InOrder (ts : List Token) : Prop where
  start_lt_stop : ∀ t ∈ ts, t.extent.start < t.extent.stop
  pairwise : ts.Pairwise fun t u => t.extent.stop ≤ u.extent.start

theorem Splits.start_le (h : Splits start cs ts) : ∀ t ∈ ts, start ≤ t.extent.start := by
  intro t ht
  obtain ⟨before, after, rfl⟩ := List.append_of_mem ht
  obtain ⟨front, -, -, hstart, -⟩ := h.exists_behind
  omega

theorem Splits.inOrder (h : Splits start cs ts) : InOrder ts := by
  induction h with
  | nil => exact ⟨nofun, .nil⟩
  | trivia _ _ ih => exact ih
  | @token start kind taken rest ts hlongest hrest ih =>
    have hpos := byteSize_pos hlongest.matches_taken.ne_nil
    exact ⟨List.forall_mem_cons.2 ⟨Nat.lt_add_of_pos_right hpos, ih.start_lt_stop⟩,
      .cons hrest.start_le ih.pairwise⟩

theorem InOrder.left (h : InOrder (before ++ after)) : InOrder before :=
  ⟨fun t ht => h.start_lt_stop t (List.mem_append_left _ ht), (List.pairwise_append.1 h.pairwise).1⟩

theorem InOrder.right (h : InOrder (before ++ after)) : InOrder after :=
  ⟨fun t ht => h.start_lt_stop t (List.mem_append_right _ ht), (List.pairwise_append.1 h.pairwise).2.1⟩

theorem InOrder.stop_le_start (h : InOrder (before ++ after)) {u : Token} (ht : t ∈ before)
    (hu : u ∈ after) : t.extent.stop ≤ u.extent.start :=
  (List.pairwise_append.1 h.pairwise).2.2 t ht u hu

end Texts

section Forms

variable {ts : List Token} {m : Mold}

mutual

/-- The form of each mold of a tree stands among the tokens of the tree. -/
theorem Form.exists_part : ∀ {ts : List Token} {m : Mold}, Form ts m → ∀ part ∈ m.preorder,
    ∃ before used after, ts = before ++ (used ++ after) ∧ Form used part
  | _, _, @Form.mk h ts childTokens children closing hheader hchildren hclosing, part, hpart => by
    rw [preorder_mk, List.mem_cons] at hpart
    rcases hpart with rfl | hpart
    · exact ⟨[], _, [], by simp, .mk hheader hchildren hclosing⟩
    · obtain ⟨before, used, after, rfl, hused⟩ := Forms.exists_part hchildren part hpart
      exact ⟨ts ++ before, used, after ++ [closing], by simp, hused⟩

theorem Forms.exists_part : ∀ {ts : List Token} {ms : List Mold}, Forms ts ms →
    ∀ part ∈ ms.flatMap preorder, ∃ before used after, ts = before ++ (used ++ after) ∧ Form used part
  | _, _, .nil, _, hpart => nomatch hpart
  | _, _, @Forms.cons ts more m ms hm hms, part, hpart => by
    rw [List.flatMap_cons, List.mem_append] at hpart
    rcases hpart with hpart | hpart
    · obtain ⟨before, used, after, rfl, hused⟩ := Form.exists_part hm part hpart
      exact ⟨before, used, after ++ more, by simp, hused⟩
    · obtain ⟨before, used, after, rfl, hused⟩ := Forms.exists_part hms part hpart
      exact ⟨ts ++ before, used, after, by simp, hused⟩

end

/-- A form stands between its parentheses, and the forms of its children inside them. -/
theorem Form.exists_ends (h : Form ts m) : ∃ opening header childTokens closing,
    ts = opening :: (header ++ childTokens ++ [closing]) ∧ opening.kind = .opening ∧
      closing.kind = .closing ∧ m.extent = ⟨opening.extent.start, closing.extent.stop⟩ ∧
      Forms childTokens m.children := by
  cases h with
  | @mk h ts childTokens children closing hheader hchildren hclosing =>
    cases hheader with
    | @mk opening head names values _ _ _ hopening =>
      exact ⟨opening, head :: (names ++ values), childTokens, closing, by simp, hopening, hclosing,
        rfl, hchildren⟩

/-- Whether a mold begins and ends with tokens of a list. -/
def HasEnds (ts : List Token) (m : Mold) : Prop :=
  ∃ opening ∈ ts, ∃ closing ∈ ts, m.extent = ⟨opening.extent.start, closing.extent.stop⟩

theorem HasEnds.mono {ts' : List Token} (h : HasEnds ts m) (hts : ts ⊆ ts') : HasEnds ts' m := by
  obtain ⟨opening, hopening, closing, hclosing, hextent⟩ := h
  exact ⟨opening, hts hopening, closing, hts hclosing, hextent⟩

theorem Form.hasEnds (h : Form ts m) : HasEnds ts m := by
  obtain ⟨opening, header, childTokens, closing, rfl, -, -, hextent, -⟩ := h.exists_ends
  exact ⟨opening, List.mem_cons_self, closing, by simp, hextent⟩

theorem Forms.hasEnds : ∀ {ts : List Token} {ms : List Mold}, Forms ts ms → ∀ m ∈ ms, HasEnds ts m
  | _, _, .nil, _, hm => nomatch hm
  | _, _, @Forms.cons ts more first ms hfirst hms, m, hm => by
    rcases List.mem_cons.1 hm with rfl | hm
    · exact hfirst.hasEnds.mono (List.subset_append_left ts more)
    · exact (Forms.hasEnds hms m hm).mono (List.subset_append_right ts more)

theorem Forms.extents_pairwise : ∀ {ts : List Token} {ms : List Mold}, Forms ts ms → InOrder ts →
    ms.Pairwise fun c d => c.extent.stop ≤ d.extent.start
  | _, _, .nil, _ => .nil
  | _, _, @Forms.cons ts more m ms hm hms, horder => by
    refine .cons (fun d hd => ?_) (Forms.extents_pairwise hms horder.right)
    obtain ⟨_, _, closing, hclosing, hextent⟩ := hm.hasEnds
    obtain ⟨opening, hopening, _, _, hextent'⟩ := hms.hasEnds d hd
    rw [hextent, hextent']
    exact horder.stop_le_start hclosing hopening

theorem Form.child_inside (h : Form ts m) (horder : InOrder ts) : ∀ c ∈ m.children,
    m.extent.start < c.extent.start ∧ c.extent.stop < m.extent.stop := by
  intro c hc
  obtain ⟨opening, header, childTokens, closing, rfl, -, -, hm, hchildren⟩ := h.exists_ends
  obtain ⟨first, hfirst, last, hlast, hc⟩ := hchildren.hasEnds c hc
  have hbehind : opening.extent.stop ≤ first.extent.start :=
    List.rel_of_pairwise_cons horder.pairwise (by simp [hfirst])
  rw [← List.cons_append] at horder
  have hbefore : last.extent.stop ≤ closing.extent.start :=
    horder.stop_le_start (by simp [hlast]) List.mem_cons_self
  have hopening := horder.start_lt_stop opening (by simp)
  have hclosing := horder.start_lt_stop closing (by simp)
  rw [hm, hc]
  constructor <;> dsimp only <;> omega

theorem Form.children_pairwise (h : Form ts m) (horder : InOrder ts) :
    m.children.Pairwise fun c d => c.extent.stop ≤ d.extent.start := by
  obtain ⟨opening, header, childTokens, closing, rfl, -, -, -, hchildren⟩ := h.exists_ends
  refine hchildren.extents_pairwise ?_
  rw [List.append_assoc, ← List.cons_append] at horder
  exact horder.right.left

end Forms

section Extents

variable {ts : List Token} {m : Mold}

/-- In pre-order, every `MULTI-WORD` of the tree without values stands behind one of the same name with
values. -/
def DefinesWords (m : Mold) : Prop :=
  ∀ before d after, m.preorder = before ++ d :: after → d.kind = .multiWord [] →
    ∃ e ∈ before, e.name = d.name ∧ ∃ word words, e.kind = .multiWord (word :: words)

theorem DefinesWords.valuesFirst (h : m.DefinesWords) : ValuesFirst [] m.preorder := by
  intro before d after name hsplit hname _ hfirst hkind
  obtain ⟨e, he, hsame, word, words, hwords⟩ := h before d after hsplit hkind
  refine hfirst e he ?_
  rw [← hname, wordsName?, wordsName?, hwords, hkind, hsame]

/-- The text from the first to the last character of a form splits into the tokens of the form. -/
theorem Form.exists_text {source : List Char} {before after : List Token} (hform : Form ts m)
    (hsplits : Splits 0 source (before ++ (ts ++ after))) : ∃ front text behind,
      source = front ++ (text ++ behind) ∧
        m.extent = ⟨byteSize front, byteSize front + byteSize text⟩ ∧
        text.head? = some '(' ∧ text.getLast? = some ')' ∧ Splits (byteSize front) text ts := by
  obtain ⟨opening, header, childTokens, closing, rfl, hopening, hclosing, hextent, -⟩ :=
    hform.exists_ends
  have hmatches := hsplits.matches_text
  obtain ⟨front, behind, rfl, hstart, hbehind⟩ := hsplits.exists_behind
  have hupTo : Splits opening.extent.start (opening.text ++ behind)
      ((opening :: (header ++ childTokens)) ++ closing :: after) := by simpa using hbehind
  obtain ⟨text, behind', htext, hstop, hwhole⟩ := hupTo.exists_upTo
  have hopens : opening.text = ['('] := Matches.eq_of_opening (hopening ▸ hmatches opening (by simp))
  have hcloses : closing.text = [')'] := Matches.eq_of_closing (hclosing ▸ hmatches closing (by simp))
  rw [Nat.zero_add] at hstart
  refine ⟨front, text ++ closing.text, behind', by rw [htext], ?_, ?_, by simp [hcloses], ?_⟩
  · rw [hextent, hstop, hstart]
  · rw [hopens, hcloses] at htext
    cases text with
    | nil => simp at htext
    | cons c text =>
      obtain ⟨rfl, -⟩ := List.cons.inj htext
      rfl
  · rw [← hstart]
    simpa using hwhole

/-- In a grammar text that has a mold tree, the extent of each mold is a text from a `(` to a `)`. The
extents of its children lie inside, in order and apart. Where the mold itself defines the words that it
refers to, its text alone has it as the tree, but for where it begins. -/
theorem extents_are_forms {source : String} {root m : Mold} (hroot : compile source = .ok root)
    (hm : m ∈ root.preorder) : ∃ before text behind, source.toList = before ++ (text ++ behind) ∧
      m.extent = ⟨byteSize before, byteSize before + byteSize text⟩ ∧
      text.head? = some '(' ∧ text.getLast? = some ')' ∧
      (∀ c ∈ m.children, m.extent.start < c.extent.start ∧ c.extent.stop < m.extent.stop) ∧
      (m.children.Pairwise fun c d => c.extent.stop ≤ d.extent.start) ∧
      (m.DefinesWords → ∃ m', compile (.ofList text) = .ok m' ∧ m'.shift (byteSize before) = m) := by
  obtain ⟨tokens, hsplits, hform⟩ := Draft.bind_eq_ok hroot
  have hsplits : Splits 0 source.toList tokens := tokens_eq_ok_iff.1 hsplits
  obtain ⟨hform, -⟩ := ofTokens_eq_ok_iff.1 hform
  obtain ⟨before, used, after, rfl, hused⟩ := hform.exists_part m hm
  have horder : InOrder used := hsplits.inOrder.right.left
  obtain ⟨front, text, behind, hsource, hextent, hhead, hlast, htext⟩ := hused.exists_text hsplits
  refine ⟨front, text, behind, hsource, hextent, hhead, hlast, hused.child_inside horder,
    hused.children_pairwise horder, fun hdefines => ?_⟩
  -- The tokens of the text alone are those of the form with the places counted from its start.
  obtain ⟨ts, htokens, rfl⟩ := htext.exists_shift (Nat.zero_add _).symm
  obtain ⟨m', hm', rfl⟩ := hused.exists_shift
  have hvalues : ValuesFirst [] m'.preorder := by
    have := hdefines.valuesFirst
    rwa [shift, preorder_mapPlaces, valuesFirst_map] at this
  refine ⟨m', ?_, rfl⟩
  rw [compile, read, String.toList_ofList, tokens_eq_ok_iff.2 htokens]
  exact ofTokens_eq_ok_iff.2 ⟨hm', hvalues⟩

section Instance

/-- A form that refers to its own words, with parentheses in a string and in a comment. -/
def wordsText : String := "(IDLE (MULTI-WORD w :values (\")\") ; (\n (MULTI-WORD w)))"

def words : Mold := ⟨.multiWord [")"], some "w", [⟨.multiWord [], some "w", [], ⟨39, 53⟩⟩], ⟨6, 54⟩⟩

theorem extents_are_forms_words : compile wordsText = .ok ⟨.idle, none, [words], ⟨0, 55⟩⟩ ∧
    words.DefinesWords ∧ ∃ before text behind, wordsText.toList = before ++ (text ++ behind) ∧
      words.extent = ⟨byteSize before, byteSize before + byteSize text⟩ ∧
      ∃ m', compile (.ofList text) = .ok m' ∧ m'.shift (byteSize before) = words := by
  have hcompile : compile wordsText = .ok ⟨.idle, none, [words], ⟨0, 55⟩⟩ := by decide +kernel
  have hdefines : words.DefinesWords := by
    intro before d after hsplit hkind
    have hpreorder : words.preorder = [words, ⟨.multiWord [], some "w", [], ⟨39, 53⟩⟩] := rfl
    rw [hpreorder] at hsplit
    cases before with
    | nil =>
      obtain ⟨rfl, -⟩ := List.cons.inj hsplit
      cases hkind
    | cons e before =>
      obtain ⟨rfl, hrest⟩ := List.cons.inj hsplit
      have hd : d ∈ before ++ d :: after := by simp
      rw [← List.append_eq, ← hrest, List.mem_singleton] at hd
      exact ⟨words, List.mem_cons_self, hd ▸ rfl, ")", [], rfl⟩
  obtain ⟨before, text, behind, hsource, hextent, -, -, -, -, hown⟩ :=
    extents_are_forms hcompile (.tail _ (.head _))
  exact ⟨hcompile, hdefines, before, text, behind, hsource, hextent, hown hdefines⟩

end Instance

end Extents

end Mold
end DdlSchema
