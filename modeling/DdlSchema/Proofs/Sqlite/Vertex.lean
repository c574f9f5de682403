import DdlSchema.Proofs.Graph.Quotient
import DdlSchema.Proofs.Mold.Extents
import DdlSchema.Proofs.Script.Quote
import DdlSchema.Sqlite.Parser

/-! The nodes that the dialect makes of a grammar text can all be met: a literal is one token of the dialect's
own lexer, and a choice of words is not empty. -/
namespace DdlSchema

namespace Mold

variable {source : String} {root m : Mold}

/-- Without a name, `MULTI-WORD` has values. -/
theorem Form.name_of_multiWord {ts : List Token} (h : Form ts m) (hkind : m.kind = .multiWord []) :
    ∃ name, m.name = some name := by
  cases h with
  | mk hheader _ _ =>
    cases hheader with
    | mk _ _ _ _ hdefined => exact Option.ne_none_iff_exists'.1 fun hname => hdefined ⟨hkind, hname⟩

theorem name_of_wordsName? {name : String} (h : m.wordsName? = some name) : m.name = some name := by
  unfold wordsName? at h
  split at h
  · exact h
  · cases h

/-- The mold that a node is made for lists its words. The reader asks for the values of the first
`MULTI-WORD` of a name and the graph takes the first mold of the name, which are one mold here. -/
theorem kind_ne_of_founder (hroot : compile source = .ok root) {q : Nat}
    (hq : q ∈ founders root.preorder) (hm : root.preorder[q]? = some m) : m.kind ≠ .multiWord [] := by
  obtain ⟨tokens, -, hform, hvalues⟩ := (compile_eq_ok_iff source root).1 hroot
  obtain ⟨-, used, -, -, hused⟩ := hform.exists_part m (List.mem_of_getElem? hm)
  intro hkind
  obtain ⟨name, hname⟩ := hused.name_of_multiWord hkind
  have hwords : m.wordsName? = some name := by rw [wordsName?, hkind, hname]
  have hfirst : root.preorder.findIdx (·.name == some name) = q := by
    have hself := (mem_founders.1 hq).2
    rwa [firstOf_eq hm, hname, Option.elim] at hself
  obtain ⟨hlt, rfl⟩ := List.getElem?_eq_some_iff.1 hm
  have hsplit : root.preorder =
      root.preorder.take q ++ root.preorder[q] :: root.preorder.drop (q + 1) := by
    rw [← List.drop_eq_getElem_cons hlt, List.take_append_drop]
  refine hvalues _ _ _ name hsplit hwords (by simp) (fun before hbefore hsame => ?_) hkind
  obtain ⟨i, hi, rfl⟩ := List.mem_take_iff_getElem.1 hbefore
  have hless : i < root.preorder.findIdx (·.name == some name) := by omega
  have hnot := List.not_of_lt_findIdx hless
  rw [name_of_wordsName? hsame] at hnot
  simp at hnot

end Mold

namespace Sqlite

section Literals

variable {text : String} {m : Mold} {kind : NodeKind}

/-- What a literal can become. -/
theorem literal_cases (h : literal text m = .ok kind) :
    (∃ c, text.toList = [c] ∧ lexer.isPunctuation c = true ∧ kind = .exactPunctuation c) ∨
      ∃ c w, text.toList = c :: w ∧ Lexer.startsWord c = true ∧
        w.all Lexer.continuesWord = true ∧ kind = .exactWord text := by
  unfold literal at h
  split at h
  · cases h
  · rename_i c w htext
    split at h
    · rename_i hpunctuation
      cases h
      rw [Bool.and_eq_true, List.isEmpty_iff] at hpunctuation
      obtain ⟨rfl, hc⟩ := hpunctuation
      exact .inl ⟨c, htext, hc, rfl⟩
    · split at h
      · rename_i hword
        cases h
        rw [Bool.and_eq_true] at hword
        refine .inr ⟨c, w, htext, ?_, hword.2, rfl⟩
        rw [Lexer.startsWord, hword.1, Bool.true_or]
      · cases h

theorem isolates_punctuation {c : Char} (hc : lexer.isPunctuation c = true) :
    Lexer.Isolates lexer c.toString (.punctuation c) := by
  intro rest _
  have htext : c.toString.toList = [c] := by simp
  rw [htext]
  exact Lexer.lexeme_punctuation Script.lexer_isPlain hc rest

/-- The node of a literal accepts what the literal is read as. -/
theorem tokenize_of_factory (h : factory m = .ok kind) :
    (∀ word, kind = .exactWord word →
      ∃ span, tokenize lexer word = .ok [⟨.word word, span⟩]) ∧
    (∀ c, kind = .exactPunctuation c →
      ∃ span, tokenize lexer c.toString = .ok [⟨.punctuation c, span⟩]) ∧
    ∀ words, kind = .multiWord words → m.kind = .multiWord words := by
  unfold factory VertexFactory.ofLiteral at h
  split at h
  case h_7 text _ =>
    rcases literal_cases h with ⟨c, -, hc, rfl⟩ | ⟨c, w, htext, hc, hw, rfl⟩
    · refine ⟨nofun, ?_, nofun⟩
      rintro _ ⟨⟩
      exact ⟨_, (isolates_punctuation hc).tokenize_eq⟩
    · refine ⟨?_, nofun, nofun⟩
      rintro _ ⟨⟩
      exact ⟨_, (Script.isolates_word htext hc hw).tokenize_eq⟩
  case h_6 words hwords =>
    cases h
    refine ⟨nofun, nofun, ?_⟩
    rintro _ ⟨⟩
    exact hwords
  all_goals
    cases h
    exact ⟨nofun, nofun, nofun⟩

end Literals

/-- Of the nodes that the dialect makes of a grammar text, one of several words accepts at least one word,
and the word or punctuation of a literal is read as just that one token. -/
theorem nodes_accept_tokens {Hook : Type} {source : String} {m : Mold} {g : Graph Hook}
    (hm : Mold.compile source = .ok m) (hg : Graph.build factory m = .ok g) : ∀ node ∈ g.nodes,
      (∀ words, node.kind = .multiWord words → words ≠ []) ∧
      (∀ word, node.kind = .exactWord word →
        ∃ span, tokenize lexer word = .ok [⟨.word word, span⟩]) ∧
      ∀ c, node.kind = .exactPunctuation c →
        ∃ span, tokenize lexer c.toString = .ok [⟨.punctuation c, span⟩] := by
  have hquotient := (Graph.build_isQuotient factory m).2 g hg
  intro node hnode
  obtain ⟨id, hid⟩ := List.getElem?_of_mem hnode
  have hlt : id < (Mold.founders m.preorder).length := by
    rw [← hquotient.size_eq]
    exact (List.getElem?_eq_some_iff.1 hid).1
  have hfounder := List.getElem?_eq_getElem hlt
  have hmem := List.mem_of_getElem? hfounder
  have hmold := List.getElem?_eq_getElem (Mold.mem_founders.1 hmem).1
  have hmade := (hquotient.made id _ _ hfounder hmold).1
  have hsame : g.node id = node := by rw [Graph.node, hid, Option.getD_some]
  rw [hsame] at hmade
  obtain ⟨hword, hpunctuation, hwords⟩ := tokenize_of_factory hmade
  refine ⟨fun words hkind => ?_, hword, hpunctuation⟩
  rintro rfl
  exact Mold.kind_ne_of_founder hm hmem hmold (hwords [] hkind)

/-- A list of orders, whose words stand at the first of two forms of one name. -/
def ordersText : String :=
  "(\"ORDER\" (MULTI-WORD way :values (\"asc\" \"desc\") (\",\" (MULTI-WORD way)) (END)))"

def ordersMold : Mold :=
  ⟨.literal "ORDER", none, [⟨.multiWord ["asc", "desc"], some "way",
    [⟨.literal ",", none, [⟨.multiWord [], some "way", [], ⟨53, 69⟩⟩], ⟨48, 70⟩⟩,
      ⟨.finish, none, [], ⟨71, 76⟩⟩], ⟨9, 77⟩⟩], ⟨0, 78⟩⟩

def ordersGraph : Graph Empty :=
  ⟨[⟨.exactWord "ORDER", none, none, [1]⟩, ⟨.multiWord ["asc", "desc"], some "way", none, [2, 3]⟩,
    ⟨.exactPunctuation ',', none, none, [1]⟩, ⟨.finish, none, none, []⟩], 0⟩

theorem nodes_accept_tokens_orders :
    Mold.compile ordersText = .ok ordersMold ∧ Graph.build factory ordersMold = .ok ordersGraph ∧
      (∃ span, tokenize lexer "ORDER" = .ok [⟨.word "ORDER", span⟩]) ∧
      ∃ span, tokenize lexer "," = .ok [⟨.punctuation ',', span⟩] := by
  have hm : Mold.compile ordersText = .ok ordersMold := by decide +kernel
  have hg : Graph.build factory ordersMold = .ok ordersGraph := by decide +kernel
  have hnodes := nodes_accept_tokens hm hg
  exact ⟨hm, hg, (hnodes ⟨.exactWord "ORDER", none, none, [1]⟩ (by decide)).2.1 _ rfl,
    (hnodes ⟨.exactPunctuation ',', none, none, [1]⟩ (by decide)).2.2 _ rfl⟩

end Sqlite
end DdlSchema
