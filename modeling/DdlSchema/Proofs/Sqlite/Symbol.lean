import DdlSchema.Sqlite.Parser

/-! What a token is to the SQLite grammar. Two tokens of one symbol lead a statement the same way. -/
namespace DdlSchema
namespace Sqlite

inductive Symbol where
  | keyword (k : Keyword)
  | opening
  | closing
  | comma
  | name (text : String)
  | integer (value : Int)
  | string (text : String)
  /-- A token that no node waits for. -/
  | other
deriving DecidableEq, Repr

theorem Keyword.lower_text_injective {k l : Keyword}
    (h : Text.lower k.text = Text.lower l.text) : k = l := by
  have hall : ∀ a ∈ all, ∀ b ∈ all, Text.lower a.text = Text.lower b.text → a = b := by
    decide +kernel
  exact hall k k.mem_all l l.mem_all h

/-- The keyword that a word is, in any case. -/
def Keyword.ofText? (s : String) : Option Keyword := all.find? fun k => Text.sameWord k.text s

theorem Keyword.lower_of_ofText? {s : String} {k : Keyword} (h : ofText? s = some k) :
    Text.lower s = Text.lower k.text := by
  have hk := List.find?_some (p := fun k => Text.sameWord (text k) s) h
  exact (Text.sameWord_iff.1 hk).symm

@[simp] theorem Keyword.ofText?_eq_some {s : String} {k : Keyword} :
    ofText? s = some k ↔ Text.lower s = Text.lower k.text := by
  refine ⟨lower_of_ofText?, fun h => ?_⟩
  cases hl : ofText? s with
  | none =>
    have hk := List.find?_eq_none.1 hl k k.mem_all
    simp [h] at hk
  | some l => rw [lower_text_injective ((lower_of_ofText? hl).symm.trans h)]

theorem Keyword.ofText?_eq_none {s : String} :
    ofText? s = none ↔ ∀ k : Keyword, Text.lower s ≠ Text.lower k.text := by
  simp [Option.eq_none_iff_forall_ne_some]

theorem Keyword.sameWord_text (k : Keyword) (s : String) :
    Text.sameWord k.text s = (some k == ofText? s) := by
  rw [Bool.eq_iff_iff, Text.sameWord_iff, beq_iff_eq, eq_comm (a := some k), ofText?_eq_some,
    eq_comm]

/-- The reserved words of the parser are its keywords. -/
theorem reserved_contains (s : String) :
    graph.reserved.contains s = (Keyword.ofText? s).isSome := by
  have hwords : graph.reserved.words = Keyword.all.map fun k => Text.lower k.text := by
    decide +kernel
  rw [Bool.eq_iff_iff, Option.isSome_iff_exists]
  simp only [ReservedWords.contains, hwords, List.contains_iff_mem, List.mem_map,
    Keyword.ofText?_eq_some]
  constructor
  · rintro ⟨k, -, hk⟩
    exact ⟨k, hk.symm⟩
  · rintro ⟨k, hk⟩
    exact ⟨k, k.mem_all, hk.symm⟩

namespace Symbol

def ofKind : TokenKind → Symbol
  | .word s => (Keyword.ofText? s).elim (name s) keyword
  | .punctuation '(' => opening
  | .punctuation ')' => closing
  | .punctuation ',' => comma
  | .punctuation _ => other
  | .integer n => integer n
  | .string s => string s
  | .identifier s true => name s
  | .identifier s false => (Keyword.ofText? s).elim (name s) fun _ => other

/-- The plainest kind of token that the symbol stands for. -/
def kind : Symbol → TokenKind
  | keyword k => .word k.text
  | opening => .punctuation '('
  | closing => .punctuation ')'
  | comma => .punctuation ','
  | name s => .identifier s true
  | integer n => .integer n
  | string s => .string s
  | other => .punctuation ';'

def ofToken (t : Token) : Symbol := .ofKind t.kind

def token (x : Symbol) : Token := ⟨x.kind, default⟩

end Symbol

@[simp] theorem Keyword.ofText?_text (k : Keyword) : ofText? k.text = some k := by simp

@[simp] theorem Symbol.ofKind_kind (x : Symbol) : ofKind x.kind = x := by
  cases x <;> simp [kind, ofKind]

@[simp] theorem Symbol.ofToken_token (x : Symbol) : ofToken x.token = x := x.ofKind_kind

/-- An identifier stands between delimiters, or is a bare word that no keyword claims. -/
def IsIdentifier (t : Token) (s : String) : Prop :=
  t.kind = .identifier s true ∨
    ((t.kind = .word s ∨ t.kind = .identifier s false) ∧
      ∀ k : Keyword, Text.lower s ≠ Text.lower k.text)

namespace Symbol

/-- The tokens that stand for a symbol. -/
def Matches : Symbol → Token → Prop
  | keyword k, t => ∃ w, t.kind = .word w ∧ Text.lower w = Text.lower k.text
  | opening, t => t.kind = .punctuation '('
  | closing, t => t.kind = .punctuation ')'
  | comma, t => t.kind = .punctuation ','
  | name s, t => IsIdentifier t s
  | integer n, t => t.kind = .integer n
  | string s, t => t.kind = .string s
  | other, _ => False

theorem ofToken_of_matches {x : Symbol} {t : Token} (h : x.Matches t) : ofToken t = x := by
  cases x with
  | keyword k =>
    obtain ⟨w, hw, hk⟩ := h
    simp [ofToken, hw, ofKind, Keyword.ofText?_eq_some.2 hk]
  | name s =>
    rcases h with hd | ⟨hw | hw, hk⟩
    · simp [ofToken, hd, ofKind]
    · simp [ofToken, hw, ofKind, Keyword.ofText?_eq_none.2 hk]
    · simp [ofToken, hw, ofKind, Keyword.ofText?_eq_none.2 hk]
  | other => cases h
  | _ => simp only [Matches] at h; simp only [ofToken, h, ofKind]

theorem matches_ofToken {t : Token} (h : ofToken t ≠ other) : (ofToken t).Matches t := by
  obtain ⟨kind, span⟩ := t
  cases kind with
  | word s =>
    cases hs : Keyword.ofText? s with
    | none =>
      simp only [ofToken, ofKind, hs, Option.elim_none, Matches]
      exact .inr ⟨.inl rfl, Keyword.ofText?_eq_none.1 hs⟩
    | some k =>
      simp only [ofToken, ofKind, hs, Option.elim_some, Matches]
      exact ⟨s, rfl, Keyword.ofText?_eq_some.1 hs⟩
  | punctuation c =>
    simp only [ofToken] at h ⊢
    unfold ofKind at h ⊢
    split <;> simp_all [Matches]
  | integer n => rfl
  | string s => rfl
  | identifier s delimited =>
    cases delimited with
    | true => exact .inl rfl
    | false =>
      cases hs : Keyword.ofText? s with
      | none =>
        simp only [ofToken, ofKind, hs, Option.elim_none, Matches]
        exact .inr ⟨.inr rfl, Keyword.ofText?_eq_none.1 hs⟩
      | some k => simp [ofToken, ofKind, hs] at h

theorem matches_iff {x : Symbol} {t : Token} : x.Matches t ↔ ofToken t = x ∧ x ≠ other := by
  constructor
  · intro h
    exact ⟨ofToken_of_matches h, by rintro rfl; exact h⟩
  · rintro ⟨rfl, h⟩
    exact matches_ofToken h

end Symbol

/-- Whether a node with the matcher takes a token of the symbol. -/
def Matcher.takes : Matcher → Symbol → Bool
  | keyword k, .keyword l => k == l
  | oneOf ks, .keyword l => ks.contains l
  | opening, .opening => true
  | closing, .closing => true
  | comma, .comma => true
  | name, .name _ => true
  | integer, .integer _ => true
  | string, .string _ => true
  | _, _ => false

/-- Nodes see no more of a token than its symbol. -/
theorem Matcher.accepts_kind (m : Matcher) (t : TokenKind) :
    m.kind.accepts t graph.reserved = m.takes (.ofKind t) := by
  cases t with
  | word s =>
    cases hs : Keyword.ofText? s with
    | none =>
      have hword (l : Keyword) : Text.sameWord l.text s = false := by
        simp [Keyword.sameWord_text, hs]
      cases m <;>
        simp [kind, NodeKind.accepts, Symbol.ofKind, takes, hs, reserved_contains, hword]
    | some k =>
      have hword (l : Keyword) : Text.sameWord l.text s = (l == k) := by
        simp [Keyword.sameWord_text, hs]
      cases m <;>
        simp [kind, NodeKind.accepts, Symbol.ofKind, takes, hs, reserved_contains, hword,
          List.any_map, Function.comp_def, List.any_beq']
  | punctuation c =>
    by_cases hopening : c = '('
    · subst hopening
      cases m <;> rfl
    by_cases hclosing : c = ')'
    · subst hclosing
      cases m <;> rfl
    by_cases hcomma : c = ','
    · subst hcomma
      cases m <;> rfl
    have hother : Symbol.ofKind (.punctuation c) = .other := by
      unfold Symbol.ofKind
      split <;> simp_all
    cases m <;> simp [kind, NodeKind.accepts, takes, Ne.symm, *]
  | integer n => cases m <;> rfl
  | string s => cases m <;> rfl
  | identifier s delimited =>
    cases delimited with
    | true => cases m <;> simp [kind, NodeKind.accepts, Symbol.ofKind, takes]
    | false =>
      cases hs : Keyword.ofText? s <;> cases m <;>
        simp [kind, NodeKind.accepts, Symbol.ofKind, takes, hs, reserved_contains]

end Sqlite
end DdlSchema
