import DdlSchema.Proofs.Parser.Expected

/-! Keywords and identifiers never compete. The reserved words of a graph are those of the nodes that its
root reaches, and a walk stands on no others, so a word that is a keyword anywhere is a name nowhere. -/
namespace DdlSchema
namespace NodeKind

/-- The words that a kind accepts by their text. -/
def words : NodeKind → List String
  | exactWord word => [word]
  | multiWord words => words
  | _ => []

/-- Whether a kind accepts words by their text. -/
def IsKeyword (kind : NodeKind) : Prop :=
  (∃ word, kind = .exactWord word) ∨ ∃ words, kind = .multiWord words

variable {kind : NodeKind} {token : TokenKind} {reserved : ReservedWords}

theorem exists_word_of_accepts (hkind : kind.IsKeyword) (h : kind.accepts token reserved = true) :
    ∃ text, token = .word text ∧ ∃ word ∈ kind.words, Text.lower word = Text.lower text := by
  rcases hkind with ⟨word, rfl⟩ | ⟨words, rfl⟩
  · cases token with
    | word text => exact ⟨text, rfl, word, List.mem_singleton_self word, Text.sameWord_iff.1 h⟩
    | _ => cases h
  · cases token with
    | word text =>
      obtain ⟨word, hword, hsame⟩ := List.any_eq_true.1 h
      exact ⟨text, rfl, word, hword, Text.sameWord_iff.1 hsame⟩
    | _ => cases h

/-- An identifier is no reserved word. -/
theorem identifier_accepts_word {text : String} :
    identifier.accepts (.word text) reserved = true ↔ reserved.contains text = false := by
  rw [accepts, Bool.not_eq_true']

end NodeKind

namespace Graph

variable {Hook : Type} {g : Graph Hook} {id : Nat}

/-- Whether the root leads to a node. -/
def IsReachable (g : Graph Hook) (id : Nat) : Prop :=
  Relation.ReflTransGen (fun a b => b ∈ g.successors a) g.root id

theorem keywords_eq (g : Graph Hook) :
    g.keywords = g.reachable.flatMap fun id => (g.node id).kind.words := rfl

/-- The words of a node that the root reaches are reserved in any case. -/
theorem contains_reserved (hid : g.IsReachable id) {word text : String}
    (hword : word ∈ (g.node id).kind.words) (hsame : Text.lower word = Text.lower text) :
    g.reserved.contains text = true := by
  have hsize : 0 < g.size := by
    rcases Nat.eq_zero_or_pos g.size with hzero | hpos
    · rw [g.node_of_size_le (by omega)] at hword
      cases hword
    · exact hpos
  rw [reserved, ReservedWords.contains_ofList, keywords_eq]
  exact ⟨word, List.mem_flatMap.2 ⟨id, (mem_reachable hsize).2 hid, hword⟩, hsame⟩

/-- What an identifier accepts is accepted by no keyword that the root reaches. -/
theorem not_accepts_of_identifier (hid : g.IsReachable id) (hkind : (g.node id).kind.IsKeyword)
    {token : TokenKind} (h : NodeKind.identifier.accepts token g.reserved = true) :
    (g.node id).kind.accepts token g.reserved = false := by
  rw [← Bool.not_eq_true]
  intro haccepts
  obtain ⟨text, rfl, word, hword, hsame⟩ := NodeKind.exists_word_of_accepts hkind haccepts
  rw [NodeKind.identifier_accepts_word, contains_reserved hid hword hsame] at h
  cases h

theorem StandsBehind.isReachable {starts : List Nat} (h : g.StandsBehind starts id)
    (hstarts : ∀ s ∈ starts, g.IsReachable s) : g.IsReachable id := by
  obtain ⟨-, s, hs, hreach⟩ := h
  exact (hstarts s hs).trans (Relation.ReflTransGen.mono (fun _ _ hedge => hedge.2) _ _ hreach)

end Graph

namespace Parser

variable {Hook : Type} {p : Parser Hook} {tokens : List Token} {d : Draft} {s s' : Situation}

theorem Moves.isReachable (h : p.Moves s s') (hs : ∀ c ∈ s.candidates, p.graph.IsReachable c) :
    ∀ c ∈ s'.candidates, p.graph.IsReachable c := by
  cases h with
  | moved hid he hk => exact fun c hc => (hs _ (mem_of_select hid)).tail hc

/-- A statement comes only to nodes that the root reaches. -/
theorem ComesTo.isReachable (h : p.ComesTo tokens d s) :
    ∀ c ∈ s.candidates, p.graph.IsReachable c := by
  induction h with
  | refl =>
    intro c hc
    obtain rfl := List.mem_singleton.1 hc
    exact .refl
  | tail _ hmoves ih => exact hmoves.isReachable ih

theorem fits_of_identifier {next : Option Token} {id : Nat}
    (hkind : (p.graph.node id).kind = .identifier) (h : p.fits next id = true) :
    ∃ t, next = some t ∧ NodeKind.identifier.accepts t.kind p.reserved = true := by
  have hconsumes : (p.graph.node id).kind.consumes = true := by rw [hkind]; rfl
  obtain ⟨t, ht, haccepts⟩ := (fits_of_consumes hconsumes).1 h
  exact ⟨t, ht, hkind ▸ haccepts⟩

theorem not_fits_of_identifier (hreserved : p.reserved = p.graph.reserved) {next : Option Token}
    {a b : Nat} (ha : (p.graph.node a).kind = .identifier) (hb : p.graph.IsReachable b)
    (hkeyword : (p.graph.node b).kind.IsKeyword) (hfits : p.fits next a = true) :
    p.fits next b = false := by
  have hconsumes : (p.graph.node b).kind.consumes = true := by
    rcases hkeyword with ⟨word, hword⟩ | ⟨words, hwords⟩
    · rw [hword]; rfl
    · rw [hwords]; rfl
  obtain ⟨t, rfl, haccepts⟩ := fits_of_identifier ha hfits
  rw [hreserved] at haccepts
  have hnot := Graph.not_accepts_of_identifier hb hkeyword haccepts
  rw [← Bool.not_eq_true, fits_of_consumes hconsumes]
  rintro ⟨t', ht, hkept⟩
  obtain rfl := Option.some.inj ht
  rw [hreserved, hnot] at hkept
  cases hkept

/-- Keywords and identifiers never compete. No token fits both an identifier and a keyword that the root
reaches; in no situation is a word taken for an identifier that is such a keyword in any case; a delimited
identifier is always taken for an identifier and never for a keyword; and so where a choice is ambiguous,
it is not one between the two. -/
theorem keywords_apart (p : Parser Hook) (hreserved : p.reserved = p.graph.reserved) :
    (∀ token id, p.graph.IsReachable id → (p.graph.node id).kind.IsKeyword →
      ¬(NodeKind.identifier.accepts token p.reserved = true ∧
        (p.graph.node id).kind.accepts token p.reserved = true)) ∧
    (∀ tokens d s id, p.ComesTo tokens d s → p.select s.candidates s.next = .ok id →
      (p.graph.node id).kind = .identifier → ∀ t ∈ s.next, ∀ text, t.kind = .word text →
        ∀ keyword, p.graph.IsReachable keyword →
          ∀ word ∈ (p.graph.node keyword).kind.words, Text.lower word ≠ Text.lower text) ∧
    (∀ text, NodeKind.identifier.accepts (.identifier text true) p.reserved = true ∧
      ∀ kind : NodeKind, kind.IsKeyword → kind.accepts (.identifier text true) p.reserved = false) ∧
    ∀ tokens d found nodes span,
      (p.parseTokens tokens d).verdict = .error (.ambiguous found nodes span) →
        ∃ s, p.ComesTo tokens d s ∧
          p.select s.candidates s.next = .error (.ambiguous found nodes span) ∧
          ¬∃ a b, p.graph.StandsBehind s.candidates a ∧ p.graph.StandsBehind s.candidates b ∧
            p.fits s.next a = true ∧ p.fits s.next b = true ∧
            (p.graph.node a).kind = .identifier ∧ (p.graph.node b).kind.IsKeyword := by
  refine ⟨fun token id hid hkind ⟨hidentifier, hkeyword⟩ => ?_, ?_,
    fun text => ⟨rfl, fun kind hkind => ?_⟩, ?_⟩
  · rw [hreserved] at hidentifier hkeyword
    rw [Graph.not_accepts_of_identifier hid hkind hidentifier] at hkeyword
    cases hkeyword
  · intro tokens d s id _ hselect hkind t ht text htext keyword hkeyword word hword hsame
    have hidle : (p.graph.node id).kind ≠ .idle := by rw [hkind]; nofun
    obtain ⟨t', ht', haccepts⟩ := fits_of_identifier hkind (fits_of_select hselect hidle)
    obtain rfl : t = t' := Option.some.inj (ht.symm.trans ht')
    rw [htext, hreserved, NodeKind.identifier_accepts_word,
      Graph.contains_reserved hkeyword hword hsame] at haccepts
    cases haccepts
  · rw [← Bool.not_eq_true]
    intro h
    obtain ⟨text', htext, -⟩ := NodeKind.exists_word_of_accepts hkind h
    cases htext
  · intro tokens d found nodes span h
    rcases p.parseTokens_error_cases h with hfuel | ⟨s, hs, ⟨e', he', -⟩ | hselect⟩
    · cases hfuel
    · cases e' <;> cases he'
    · refine ⟨s, hs, hselect, ?_⟩
      rintro ⟨a, b, -, hb, hfitsa, hfitsb, ha, hkeyword⟩
      have hreach := hb.isReachable hs.isReachable
      rw [not_fits_of_identifier hreserved ha hreach hkeyword hfitsa] at hfitsb
      cases hfitsb

section Instance

/-- A name, or one of two keywords that only differ in their case. -/
def orders : Parser Empty := ofGraph {} ⟨[⟨.idle, none, none, [1, 2, 3]⟩,
  ⟨.identifier, none, none, [4]⟩, ⟨.exactWord "asc", none, none, [4]⟩,
  ⟨.multiWord ["ASC", "DESC"], none, none, [4]⟩, ⟨.finish, none, none, []⟩], 0⟩ nofun

def ascending : Token := ⟨.word "Asc", default⟩

theorem keywords_apart_orders : orders.reserved = orders.graph.reserved ∧
    orders.graph.IsReachable 3 ∧ NodeKind.identifier.accepts (.word "Desc") orders.reserved = false ∧
    (orders.parseTokens [ascending] {}).verdict =
      .error (.ambiguous ascending.describe ["N2 asc", "N3 ASC|DESC"] (some ascending.span)) ∧
    ∃ s, orders.ComesTo [ascending] {} s ∧
      ¬∃ a b, orders.graph.StandsBehind s.candidates a ∧ orders.graph.StandsBehind s.candidates b ∧
        orders.fits s.next a = true ∧ orders.fits s.next b = true ∧
        (orders.graph.node a).kind = .identifier ∧ (orders.graph.node b).kind.IsKeyword := by
  have hreach : orders.graph.IsReachable 3 := .tail .refl (by decide)
  have hkeyword : (orders.graph.node 3).kind.IsKeyword := .inr ⟨_, rfl⟩
  have hambiguous : (orders.parseTokens [ascending] {}).verdict =
      .error (.ambiguous ascending.describe ["N2 asc", "N3 ASC|DESC"] (some ascending.span)) := by
    decide +kernel
  obtain ⟨hapart, -, -, hchoice⟩ := keywords_apart orders rfl
  obtain ⟨s, hs, -, hnone⟩ := hchoice _ _ _ _ _ hambiguous
  refine ⟨rfl, hreach, ?_, hambiguous, s, hs, hnone⟩
  rw [← Bool.not_eq_true]
  exact fun h => hapart (.word "Desc") 3 hreach hkeyword ⟨h, by decide⟩

end Instance

end Parser
end DdlSchema
