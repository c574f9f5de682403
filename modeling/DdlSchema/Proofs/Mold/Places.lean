import DdlSchema.Proofs.Mold.Derive
import DdlSchema.Proofs.Mold.Names

/-! Tokens and molds at other places of a text. Reading goes by the kinds and the texts of tokens alone: a
form that stands elsewhere derives the same tree there. -/
namespace DdlSchema

def Extent.map (f : Nat → Nat) (e : Extent) : Extent := ⟨f e.start, f e.stop⟩

namespace Mold

section Places

variable (f : Nat → Nat)

def Token.mapPlaces (t : Token) : Token := { t with extent := t.extent.map f }

mutual

/-- The tree with `f` of each place where one of its forms starts or ends. -/
def mapPlaces : Mold → Mold
  | ⟨kind, name, children, extent⟩ => ⟨kind, name, mapPlacesAll children, extent.map f⟩

def mapPlacesAll : List Mold → List Mold
  | [] => []
  | m :: ms => mapPlaces m :: mapPlacesAll ms

end

/-- The tree `n` bytes further on. -/
def shift (n : Nat) : Mold → Mold := mapPlaces (· + n)

@[simp] theorem kind_mapPlaces (m : Mold) : (m.mapPlaces f).kind = m.kind := by
  cases m
  rfl

@[simp] theorem name_mapPlaces (m : Mold) : (m.mapPlaces f).name = m.name := by
  cases m
  rfl

mutual

theorem preorder_mapPlaces : ∀ m : Mold, (m.mapPlaces f).preorder = m.preorder.map (mapPlaces f)
  | ⟨_, _, children, _⟩ => by
    rw [mapPlaces, preorder_mk, preorder_mk, flatMap_preorder_mapPlacesAll children, List.map_cons,
      mapPlaces]

theorem flatMap_preorder_mapPlacesAll : ∀ ms : List Mold,
    (mapPlacesAll f ms).flatMap preorder = (ms.flatMap preorder).map (mapPlaces f)
  | [] => rfl
  | m :: ms => by
    rw [mapPlacesAll, List.flatMap_cons, List.flatMap_cons, preorder_mapPlaces m,
      flatMap_preorder_mapPlacesAll ms, List.map_append]

end

theorem valuesFirst_map {known : List String} {ms : List Mold} :
    ValuesFirst known (ms.map (mapPlaces f)) ↔ ValuesFirst known ms := by
  induction ms generalizing known with
  | nil => rfl
  | cons m ms ih =>
    have hwords : (m.mapPlaces f).wordsName? = m.wordsName? := by
      rw [wordsName?, wordsName?, kind_mapPlaces, name_mapPlaces]
    rw [List.map_cons, valuesFirst_cons, valuesFirst_cons, hwords, kind_mapPlaces, ih]

end Places

section Forms

variable (f : Nat → Nat) {t : Token} {ts : List Token} {kind kind' : MoldKind}

theorem IsString.mapPlaces {text : String} (h : IsString t text) : IsString (t.mapPlaces f) text :=
  ⟨h.kind_eq, h.unescapes, h.ne_empty⟩

theorem IsHead.mapPlaces (h : IsHead t kind) : IsHead (t.mapPlaces f) kind := by
  cases h with
  | literal hstring => exact .literal (hstring.mapPlaces f)
  | symbol hsymbol hkind htext => exact .symbol hsymbol hkind htext

theorem IsName.mapPlaces {name : Option String} (h : IsName ts name) :
    IsName (ts.map (Token.mapPlaces f)) name := by
  cases h with
  | absent => exact .absent
  | present hsymbol => exact .present hsymbol

theorem AddsValues.mapPlaces (h : AddsValues ts kind kind') :
    AddsValues (ts.map (Token.mapPlaces f)) kind kind' := by
  cases h with
  | absent => exact .absent kind
  | present hkeyword htext hopening hstrings hne hclosing =>
    have hmapped := List.forall₂_map_left_iff.2 (hstrings.imp fun _ _ h => h.mapPlaces f)
    rw [List.map_cons, List.map_cons, List.map_append, List.map_singleton]
    exact .present hkeyword htext hopening hmapped hne hclosing

theorem IsHeader.mapPlaces {h : Header} (hheader : IsHeader ts h) :
    IsHeader (ts.map (Token.mapPlaces f)) { h with opening := h.opening.map f } := by
  cases hheader with
  | mk hopening hhead hname hvalues hdefined =>
    rw [List.map_cons, List.map_cons, List.map_append]
    exact .mk hopening (hhead.mapPlaces f) (hname.mapPlaces f) (hvalues.mapPlaces f) hdefined

mutual

theorem Form.mapPlaces : ∀ {ts : List Token} {m : Mold}, Form ts m →
    Form (ts.map (Token.mapPlaces f)) (m.mapPlaces f)
  | _, _, @Form.mk h ts childTokens children closing hheader hchildren hclosing => by
    rw [List.map_append, List.map_append, List.map_singleton]
    exact .mk (hheader.mapPlaces f) (Forms.mapPlaces hchildren) hclosing

theorem Forms.mapPlaces : ∀ {ts : List Token} {ms : List Mold}, Forms ts ms →
    Forms (ts.map (Token.mapPlaces f)) (mapPlacesAll f ms)
  | _, _, .nil => .nil
  | _, _, .cons hm hms => by
    rw [List.map_append]
    exact .cons (Form.mapPlaces hm) (Forms.mapPlaces hms)

end

end Forms

section Shifts

variable {n : Nat}

/-- What derives a tree from tokens further on derives it from the tokens themselves. -/
theorem Form.exists_shift {ts : List Token} {m : Mold}
    (h : Form (ts.map (Token.mapPlaces (· + n))) m) : ∃ m', Form ts m' ∧ m'.shift n = m := by
  have hback : Form ts (m.mapPlaces (· - n)) := by
    simpa [Function.comp_def, Token.mapPlaces, Extent.map] using h.mapPlaces (· - n)
  exact ⟨_, hback, (hback.mapPlaces (· + n)).unique h⟩

/-- A text has the same tokens at any byte that it begins at. -/
theorem Splits.exists_shift {start place : Nat} {cs : List Char} {ts : List Token}
    (h : Splits place cs ts) (hplace : place = start + n) :
    ∃ ts', Splits start cs ts' ∧ ts'.map (Token.mapPlaces (· + n)) = ts := by
  induction h generalizing start with
  | nil => exact ⟨[], .nil start, rfl⟩
  | @trivia place taken rest ts hlongest _ ih =>
    obtain ⟨ts', hsplits, hts'⟩ := @ih (start + byteSize taken) (by omega)
    exact ⟨ts', .trivia hlongest hsplits, hts'⟩
  | @token place kind taken rest ts hlongest _ ih =>
    obtain ⟨ts', hsplits, rfl⟩ := @ih (start + byteSize taken) (by omega)
    refine ⟨_, .token hlongest hsplits, ?_⟩
    rw [List.map_cons, Token.mapPlaces, Extent.map, hplace, Nat.add_right_comm]

end Shifts

end Mold
end DdlSchema
