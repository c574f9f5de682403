import DdlSchema.Draft
import DdlSchema.Mold.Reader
import DdlSchema.Proofs.Mold.Lexes
import Mathlib.Data.List.Forall2

/-! A grammar text has a mold tree iff its tokens are one form, and the tree is the one that the form
derives. -/
namespace DdlSchema
namespace Mold

section Grammar

/-- What stands between the quotes of a string with the text that it means. The quote and the backslash
are all that a backslash may stand before. -/
inductive Unescapes : List Char → List Char → Prop
  | nil : Unescapes [] []
  | plain {c : Char} {cs ds : List Char} (hc : c ≠ '\\') (h : Unescapes cs ds) :
      Unescapes (c :: cs) (c :: ds)
  | escape {c : Char} {cs ds : List Char} (hc : c = '"' ∨ c = '\\') (h : Unescapes cs ds) :
      Unescapes ('\\' :: c :: cs) (c :: ds)

/-- A string token with its text, which is not empty. -/
structure IsString (t : Token) (text : String) : Prop where
  kind_eq : t.kind = .string
  unescapes : ∃ body, t.text.tail = body ++ ['"'] ∧ Unescapes body text.toList
  ne_empty : text ≠ ""

/-- A token with the kind that it gives to a form: a literal, or one of the six names of kinds. -/
inductive IsHead (t : Token) : MoldKind → Prop
  | literal {text : String} (h : IsString t text) : IsHead t (.literal text)
  | symbol {kind : MoldKind} (hsymbol : t.kind = .symbol)
      (hkind : kind ∈ [.idle, .finish, .identifier, .integer, .string, .multiWord []])
      (htext : String.ofList t.text = kind.head) : IsHead t kind

inductive IsName : List Token → Option String → Prop
  | absent : IsName [] none
  | present {t : Token} (h : t.kind = .symbol) : IsName [t] (some (.ofList t.text))

/-- Tokens that add values to a kind, or leave it as it is. Only `MULTI-WORD` takes values, and then at
least one. -/
inductive AddsValues : List Token → MoldKind → MoldKind → Prop
  | absent (kind : MoldKind) : AddsValues [] kind kind
  | present {keyword opening closing : Token} {strings : List Token} {words texts : List String}
      (hkeyword : keyword.kind = .keyword) (htext : keyword.text = ":values".toList)
      (hopening : opening.kind = .opening) (hstrings : List.Forall₂ IsString strings texts)
      (hne : texts ≠ []) (hclosing : closing.kind = .closing) :
      AddsValues (keyword :: opening :: (strings ++ [closing])) (.multiWord words) (.multiWord texts)

/-- The tokens of a form up to its children. Without a name, `MULTI-WORD` has values. -/
inductive IsHeader : List Token → Header → Prop
  | mk {opening head : Token} {names values : List Token} {kind kind' : MoldKind} {name : Option String}
      (hopening : opening.kind = .opening) (hhead : IsHead head kind) (hname : IsName names name)
      (hvalues : AddsValues values kind kind') (hdefined : ¬(kind' = .multiWord [] ∧ name = none)) :
      IsHeader (opening :: head :: (names ++ values)) ⟨opening.extent, kind', name⟩

mutual

/-- The tokens of a form with the tree that they derive. -/
inductive Form : List Token → Mold → Prop
  | mk {h : Header} {ts childTokens : List Token} {children : List Mold} {closing : Token}
      (hheader : IsHeader ts h) (hchildren : Forms childTokens children)
      (hclosing : closing.kind = .closing) : Form (ts ++ (childTokens ++ [closing]))
        ⟨h.kind, h.name, children, ⟨h.opening.start, closing.extent.stop⟩⟩

inductive Forms : List Token → List Mold → Prop
  | nil : Forms [] []
  | cons {ts more : List Token} {m : Mold} {ms : List Mold} (hm : Form ts m) (hms : Forms more ms) :
      Forms (ts ++ more) (m :: ms)

end

end Grammar

section Strings

theorem unescape?_eq_some_iff {cs ds : List Char} :
    unescape? cs = some ds ↔ ∃ body, cs = body ++ ['"'] ∧ Unescapes body ds := by
  constructor
  · intro h
    fun_induction unescape? cs generalizing ds with
    | case1 =>
      cases h
      exact ⟨[], rfl, .nil⟩
    | case2 c cs hc ih =>
      obtain ⟨ds', hds, rfl⟩ := Option.map_eq_some_iff.1 h
      obtain ⟨body, rfl, hbody⟩ := ih hds
      exact ⟨'\\' :: c :: body, rfl, .escape (by simpa using hc) hbody⟩
    | case3 => cases h
    | case4 c cs hquote hescape ih =>
      obtain ⟨ds', hds, rfl⟩ := Option.map_eq_some_iff.1 h
      obtain ⟨body, rfl, hbody⟩ := ih hds
      refine ⟨c :: body, rfl, .plain ?_ hbody⟩
      rintro rfl
      obtain ⟨d, rest, hrest⟩ : ∃ d rest, body ++ ['"'] = d :: rest :=
        List.exists_cons_of_ne_nil (by simp)
      exact hescape d rest rfl hrest
    | case5 => cases h
  · rintro ⟨body, rfl, hbody⟩
    induction hbody with
    | nil => rfl
    | plain hc _ ih =>
      rw [List.cons_append, unescape?, ih]
      · rfl
      · intro _ hnil
        exact absurd hnil (by simp)
      · intro _ _ hslash
        exact absurd hslash hc
    | escape hc _ ih =>
      rw [List.cons_append, List.cons_append, unescape?, if_pos (by simpa using hc), ih]
      rfl

theorem Token.string_eq_ok_iff {t : Token} (hkind : t.kind = .string) {text : String} :
    t.string = .ok text ↔ IsString t text := by
  have hstring : IsString t text ↔ unescape? t.text.tail = some text.toList ∧ text ≠ "" := by
    rw [unescape?_eq_some_iff]
    exact ⟨fun h => ⟨h.unescapes, h.ne_empty⟩, fun h => ⟨hkind, h.1, h.2⟩⟩
  rw [hstring, Token.string, List.drop_one]
  split
  case h_1 hnone => simp [hnone]
  case h_2 hempty =>
    rw [hempty]
    constructor
    · nofun
    · rintro ⟨hnil, hne⟩
      exact absurd (String.toList_eq_nil_iff.1 (Option.some.inj hnil).symm) hne
  case h_3 cs hne hsome =>
    simp only [hsome, Except.ok.injEq, Option.some.injEq]
    constructor
    · rintro rfl
      refine ⟨by simp, ?_⟩
      rintro hempty
      exact hne (by simpa using hempty)
    · rintro ⟨rfl, -⟩
      simp

theorem ofHead?_eq_some_iff {text : String} {kind : MoldKind} : MoldKind.ofHead? text = some kind ↔
    kind ∈ [.idle, .finish, .identifier, .integer, .string, .multiWord []] ∧ text = kind.head := by
  constructor
  · intro h
    unfold MoldKind.ofHead? at h
    split at h <;> cases h <;> exact ⟨by decide, rfl⟩
  · rintro ⟨hkind, rfl⟩
    simp only [List.mem_cons, List.not_mem_nil, or_false] at hkind
    rcases hkind with rfl | rfl | rfl | rfl | rfl | rfl <;> rfl

theorem Token.head_eq_ok_iff {t : Token} {kind : MoldKind} : t.head = .ok kind ↔ IsHead t kind := by
  unfold Token.head
  split
  case h_1 hstring =>
    constructor
    · intro h
      cases htext : t.string with
      | error e =>
        rw [htext] at h
        cases h
      | ok text =>
        rw [htext] at h
        cases h
        exact .literal ((Token.string_eq_ok_iff hstring).1 htext)
    · rintro (⟨h⟩ | ⟨hsymbol, -, -⟩)
      · rw [(Token.string_eq_ok_iff hstring).2 h]
        rfl
      · rw [hstring] at hsymbol
        cases hsymbol
  case h_2 hsymbol =>
    have hhead : IsHead t kind ↔ MoldKind.ofHead? (.ofList t.text) = some kind := by
      rw [ofHead?_eq_some_iff]
      constructor
      · rintro (⟨h⟩ | ⟨-, hkind, htext⟩)
        · exact absurd (h.kind_eq.symm.trans hsymbol) (by decide)
        · exact ⟨hkind, htext⟩
      · exact fun h => .symbol hsymbol h.1 h.2
    rw [hhead]
    split <;> simp_all
  case h_3 hstring hsymbol =>
    constructor
    · nofun
    · rintro (⟨h⟩ | ⟨h, -, -⟩)
      · exact absurd h.kind_eq hstring
      · exact absurd h hsymbol

end Strings

section Headers

variable {size : Nat} {ts rest : List Token}

theorem valueList_eq_ok_iff {texts : List String} : valueList size ts = .ok (texts, rest) ↔
    ∃ strings closing, ts = strings ++ closing :: rest ∧ List.Forall₂ IsString strings texts ∧
      closing.kind = .closing := by
  constructor
  · intro h
    induction ts generalizing texts with
    | nil => cases h
    | cons t ts ih =>
      rw [valueList] at h
      split at h
      case h_1 hstring =>
        obtain ⟨text, htext, h⟩ := Draft.bind_eq_ok h
        obtain ⟨⟨texts', rest'⟩, htexts, h⟩ := Draft.bind_eq_ok h
        cases h
        obtain ⟨strings, closing, rfl, hstrings, hclosing⟩ := ih htexts
        exact ⟨t :: strings, closing, rfl,
          .cons ((Token.string_eq_ok_iff hstring).1 htext) hstrings, hclosing⟩
      case h_2 hclosing =>
        cases h
        exact ⟨[], t, rfl, .nil, hclosing⟩
      case h_3 => cases h
  · rintro ⟨strings, closing, rfl, hstrings, hclosing⟩
    induction hstrings with
    | nil => simp [valueList, hclosing]
    | @cons t text strings texts ht _ ih =>
      rw [List.cons_append, valueList, ht.kind_eq, (Token.string_eq_ok_iff ht.kind_eq).2 ht, ih]
      rfl

theorem values_eq_ok_iff {keyword : Token} {texts : List String} :
    values size keyword ts = .ok (texts, rest) ↔ ∃ opening strings closing,
      ts = opening :: (strings ++ closing :: rest) ∧ opening.kind = .opening ∧
        List.Forall₂ IsString strings texts ∧ texts ≠ [] ∧ closing.kind = .closing := by
  constructor
  · intro h
    cases ts with
    | nil => cases h
    | cons opening ts =>
      rw [values] at h
      split at h
      case isFalse => cases h
      case isTrue hopening =>
        obtain ⟨⟨texts', rest'⟩, htexts, hchecked⟩ := Draft.bind_eq_ok h
        obtain ⟨strings, closing, rfl, hstrings, hclosing⟩ := valueList_eq_ok_iff.1 htexts
        dsimp only at hchecked
        split at hchecked
        case isTrue => cases hchecked
        case isFalse hne =>
          cases hchecked
          exact ⟨opening, strings, closing, rfl, hopening, hstrings, by simpa using hne, hclosing⟩
  · rintro ⟨opening, strings, closing, rfl, hopening, hstrings, hne, hclosing⟩
    have hlist : valueList size (strings ++ closing :: rest) = .ok (texts, rest) :=
      valueList_eq_ok_iff.2 ⟨strings, closing, rfl, hstrings, hclosing⟩
    simp [values, hopening, hlist, hne, bind, Except.bind]

/-- Tokens behind which neither a name nor values can stand. -/
def Stops (rest : List Token) : Prop := ∀ t ∈ rest.head?, t.kind ≠ .symbol ∧ t.kind ≠ .keyword

theorem isName_of_readName {name : Option String} (h : readName ts = (name, rest)) :
    ∃ used, ts = used ++ rest ∧ IsName used name := by
  cases ts with
  | nil =>
    cases h
    exact ⟨[], rfl, .absent⟩
  | cons t ts =>
    rw [readName] at h
    split at h
    case isTrue hsymbol =>
      cases h
      exact ⟨[t], rfl, .present hsymbol⟩
    case isFalse =>
      cases h
      exact ⟨[], rfl, .absent⟩

theorem addsValues_of_readValues {kind kind' : MoldKind}
    (h : readValues size kind ts = .ok (kind', rest)) :
    ∃ used, ts = used ++ rest ∧ AddsValues used kind kind' := by
  cases ts with
  | nil =>
    cases h
    exact ⟨[], rfl, .absent kind⟩
  | cons keyword ts =>
    unfold readValues at h
    dsimp only at h
    split at h
    case isFalse =>
      cases h
      exact ⟨[], rfl, .absent kind⟩
    case isTrue hkeyword =>
      split at h
      case isFalse => cases h
      case isTrue htext =>
        split at h
        case h_2 => cases h
        case h_1 words =>
          obtain ⟨⟨texts, rest'⟩, hvalues, h⟩ := Draft.bind_eq_ok h
          cases h
          obtain ⟨opening, strings, closing, rfl, hopening, hstrings, hne, hclosing⟩ :=
            values_eq_ok_iff.1 hvalues
          exact ⟨keyword :: opening :: (strings ++ [closing]), by simp,
            .present hkeyword htext hopening hstrings hne hclosing⟩

theorem isHeader_of_header {h : Header} (hheader : header size ts = .ok (h, rest)) :
    ∃ used, ts = used ++ rest ∧ IsHeader used h := by
  unfold header at hheader
  split at hheader
  case h_1 => cases hheader
  case h_2 opening ts =>
    split at hheader
    case h_2 => cases hheader
    case h_3 => cases hheader
    case h_1 hopening =>
      split at hheader
      case h_1 => cases hheader
      case h_2 head ts =>
        obtain ⟨kind, hhead, hheader⟩ := Draft.bind_eq_ok hheader
        cases hname : readName ts with
        | mk name ts' =>
        simp only [hname] at hheader
        obtain ⟨⟨kind', ts''⟩, hvalues, hheader⟩ := Draft.bind_eq_ok hheader
        dsimp only at hheader
        split at hheader
        case isTrue => cases hheader
        case isFalse hdefined =>
          cases hheader
          obtain ⟨names, rfl, hnames⟩ := isName_of_readName hname
          obtain ⟨values, rfl, hadds⟩ := addsValues_of_readValues hvalues
          exact ⟨opening :: head :: (names ++ values), by simp,
            .mk hopening (Token.head_eq_ok_iff.1 hhead) hnames hadds hdefined⟩

theorem readName_of_isName {names : List Token} {name : Option String} (h : IsName names name)
    (hrest : ∀ t ∈ rest.head?, t.kind ≠ .symbol) : readName (names ++ rest) = (name, rest) := by
  cases h with
  | present hsymbol => simp [readName, hsymbol]
  | absent =>
    cases rest with
    | nil => rfl
    | cons t rest => exact if_neg (hrest t rfl)

theorem readValues_of_addsValues {values : List Token} {kind kind' : MoldKind}
    (h : AddsValues values kind kind') (hrest : ∀ t ∈ rest.head?, t.kind ≠ .keyword) :
    readValues size kind (values ++ rest) = .ok (kind', rest) := by
  cases h with
  | absent =>
    cases rest with
    | nil => rfl
    | cons t rest => exact if_neg (hrest t rfl)
  | @present keyword opening closing strings words texts hkeyword htext hopening hstrings hne hclosing =>
    have hvalues : Mold.values size keyword (opening :: (strings ++ closing :: rest)) = .ok (texts, rest) :=
      values_eq_ok_iff.2 ⟨opening, strings, closing, rfl, hopening, hstrings, hne, hclosing⟩
    have happend : keyword :: opening :: (strings ++ [closing]) ++ rest =
        keyword :: opening :: (strings ++ closing :: rest) := by simp
    rw [happend, readValues, if_pos hkeyword, if_pos htext, hvalues]
    rfl

theorem header_of_isHeader {h : Header} {used : List Token} (hused : IsHeader used h)
    (hrest : Stops rest) : header size (used ++ rest) = .ok (h, rest) := by
  cases hused with
  | @mk opening head names values kind kind' name hopening hhead hname hvalues hdefined =>
    have hreadValues : readValues size kind (values ++ rest) = .ok (kind', rest) :=
      readValues_of_addsValues hvalues fun t ht => (hrest t ht).2
    have hreadName : readName (names ++ (values ++ rest)) = (name, values ++ rest) := by
      refine readName_of_isName hname fun t ht => ?_
      cases hvalues with
      | absent => exact (hrest t ht).1
      | present hkeyword =>
        obtain rfl := Option.some.inj ht
        rw [hkeyword]
        decide
    have happend : opening :: head :: (names ++ values) ++ rest =
        opening :: head :: (names ++ (values ++ rest)) := by simp
    rw [happend, header, hopening]
    simp [Token.head_eq_ok_iff.2 hhead, hreadName, hreadValues, hdefined, bind, Except.bind]

end Headers

section Forms

variable {size : Nat}

/-- A form with children of at most `fuel` forms in one row and depth. -/
def formWithin (size fuel : Nat) (ts : List Token) : Except GrammarError (Mold × List Token) := do
  let (h, ts) ← header size ts
  let (children, ts) ← forms size fuel ts
  h.close children ts

theorem forms_of_opening {fuel : Nat} {ts : List Token} (h : ts.head?.any (·.kind = .opening) = true) :
    forms size (fuel + 1) ts = (do
      let (m, ts) ← formWithin size fuel ts
      let (ms, ts) ← forms size fuel ts
      .ok (m :: ms, ts)) := by
  rw [forms, if_pos h]
  simp only [formWithin, bind_assoc]

theorem close_eq_ok_iff {h : Header} {children : List Mold} {ts rest : List Token} {m : Mold} :
    h.close children ts = .ok (m, rest) ↔
      ∃ closing, ts = closing :: rest ∧ closing.kind = .closing ∧
        m = ⟨h.kind, h.name, children, ⟨h.opening.start, closing.extent.stop⟩⟩ := by
  cases ts with
  | nil => simp [Header.close]
  | cons t ts =>
    by_cases ht : t.kind = .closing
    · simp [Header.close, ht, eq_comm, and_comm]
    · simp [Header.close, ht]

theorem form_of_formWithin {fuel : Nat} {ts rest : List Token} {m : Mold}
    (hforms : ∀ {ts rest : List Token} {ms : List Mold}, forms size fuel ts = .ok (ms, rest) →
      ∃ used, ts = used ++ rest ∧ Forms used ms)
    (h : formWithin size fuel ts = .ok (m, rest)) : ∃ used, ts = used ++ rest ∧ Form used m := by
  obtain ⟨⟨header, ts'⟩, hread, hbody⟩ := Draft.bind_eq_ok h
  obtain ⟨⟨children, ts''⟩, hreads, hclose⟩ := Draft.bind_eq_ok hbody
  obtain ⟨headerTokens, rfl, hheader⟩ := isHeader_of_header hread
  obtain ⟨childTokens, rfl, hchildren⟩ := hforms hreads
  obtain ⟨closing, rfl, hclosing, rfl⟩ := close_eq_ok_iff.1 hclose
  exact ⟨headerTokens ++ (childTokens ++ [closing]), by simp, .mk hheader hchildren hclosing⟩

theorem forms_sound {fuel : Nat} {ts rest : List Token} {ms : List Mold}
    (h : forms size fuel ts = .ok (ms, rest)) : ∃ used, ts = used ++ rest ∧ Forms used ms := by
  induction fuel generalizing ts rest ms with
  | zero =>
    cases h
    exact ⟨[], rfl, .nil⟩
  | succ fuel ih =>
    by_cases hopening : ts.head?.any (·.kind = .opening) = true
    · rw [forms_of_opening hopening] at h
      obtain ⟨⟨m, ts'⟩, hread, hrest⟩ := Draft.bind_eq_ok h
      obtain ⟨⟨ms', ts''⟩, hreads, hms'⟩ := Draft.bind_eq_ok hrest
      cases hms'
      obtain ⟨used, rfl, hm⟩ := form_of_formWithin ih hread
      obtain ⟨more, rfl, hms⟩ := ih hreads
      exact ⟨used ++ more, by simp, .cons hm hms⟩
    · rw [forms, if_neg hopening] at h
      cases h
      exact ⟨[], rfl, .nil⟩

theorem IsHeader.opens {ts : List Token} {h : Header} (hheader : IsHeader ts h) (rest : List Token) :
    (ts ++ rest).head?.any (·.kind = .opening) = true := by
  cases hheader with
  | mk hopening => simp [hopening]

theorem Form.opens {ts : List Token} {m : Mold} (hform : Form ts m) (rest : List Token) :
    (ts ++ rest).head?.any (·.kind = .opening) = true := by
  cases hform with
  | mk hheader => rw [List.append_assoc]; exact hheader.opens _

/-- Behind a header stand forms and the closing parenthesis, and so neither a name nor values. -/
theorem Forms.stops {ts : List Token} {ms : List Mold} {closing : Token} (hforms : Forms ts ms)
    (hclosing : closing.kind = .closing) (rest : List Token) : Stops (ts ++ closing :: rest) := by
  intro t ht
  cases hforms with
  | nil =>
    obtain rfl := Option.some.inj ht
    simp [hclosing]
  | @cons ts more m ms hm hms =>
    have hopens := hm.opens (more ++ closing :: rest)
    rw [List.append_assoc] at ht
    rw [Option.mem_def.1 ht] at hopens
    have hkind : t.kind = .opening := by simpa using hopens
    simp [hkind]

theorem Form.length_pos {ts : List Token} {m : Mold} (hform : Form ts m) : 0 < ts.length := by
  cases hform
  simp only [List.length_append, List.length_singleton]
  omega

mutual

theorem formWithin_complete : ∀ {ts : List Token} {m : Mold} {fuel : Nat} (rest : List Token),
    Form ts m → ts.length ≤ fuel + 1 → formWithin size fuel (ts ++ rest) = .ok (m, rest)
  | _, _, fuel, rest, @Form.mk h ts childTokens children closing hheader hchildren hclosing, hfuel => by
    have happend : ts ++ (childTokens ++ [closing]) ++ rest =
        ts ++ (childTokens ++ closing :: rest) := by simp
    have hread : header size (ts ++ (childTokens ++ closing :: rest)) =
        .ok (h, childTokens ++ closing :: rest) :=
      header_of_isHeader hheader (hchildren.stops hclosing rest)
    have hlength : childTokens.length ≤ fuel := by
      simp only [List.length_append, List.length_singleton] at hfuel
      omega
    have hreads : forms size fuel (childTokens ++ closing :: rest) =
        .ok (children, closing :: rest) :=
      forms_complete hchildren hlength (by simp [hclosing])
    rw [happend, formWithin, hread]
    dsimp only [bind, Except.bind]
    rw [hreads]
    exact close_eq_ok_iff.2 ⟨closing, rfl, hclosing, rfl⟩

theorem forms_complete : ∀ {ts : List Token} {ms : List Mold} {fuel : Nat} {rest : List Token},
    Forms ts ms → ts.length ≤ fuel → ¬rest.head?.any (·.kind = .opening) = true →
    forms size fuel (ts ++ rest) = .ok (ms, rest)
  | _, _, 0, rest, .nil, _, _ => rfl
  | _, _, fuel + 1, rest, .nil, _, hrest => by rw [List.nil_append, forms, if_neg hrest]
  | _, _, 0, rest, .cons hm _, hfuel, _ => by
    have hpos := hm.length_pos
    rw [List.length_append] at hfuel
    omega
  | _, _, fuel + 1, rest, @Forms.cons ts more m ms hm hms, hfuel, hrest => by
    have hpos := hm.length_pos
    rw [List.length_append] at hfuel
    have hread : formWithin size fuel (ts ++ (more ++ rest)) = .ok (m, more ++ rest) :=
      formWithin_complete (more ++ rest) hm (by omega)
    have hreads : forms size fuel (more ++ rest) = .ok (ms, rest) :=
      forms_complete hms (by omega) hrest
    rw [List.append_assoc, forms_of_opening (hm.opens _), hread]
    dsimp only [bind, Except.bind]
    rw [hreads]

end

theorem form_eq_ok_iff {ts rest : List Token} {m : Mold} :
    form size ts = .ok (m, rest) ↔ ∃ used, ts = used ++ rest ∧ Form used m := by
  constructor
  · exact form_of_formWithin forms_sound
  · rintro ⟨used, rfl, hform⟩
    refine formWithin_complete rest hform ?_
    rw [List.length_append]
    omega

/-- Tokens derive one tree at most. -/
theorem Form.unique {ts : List Token} {m m' : Mold} (h : Form ts m) (h' : Form ts m') : m = m' := by
  have hm : form 0 ts = .ok (m, []) := form_eq_ok_iff.2 ⟨ts, by simp, h⟩
  have hm' : form 0 ts = .ok (m', []) := form_eq_ok_iff.2 ⟨ts, by simp, h'⟩
  rw [hm] at hm'
  cases hm'
  rfl

end Forms

section Values

/-- The name under which a mold is a `MULTI-WORD`. -/
def wordsName? (m : Mold) : Option String :=
  match m.kind with
  | .multiWord _ => m.name
  | _ => none

/-- In the order of the list, the first `MULTI-WORD` of each name has values, but for known names. -/
def ValuesFirst (known : List String) (ms : List Mold) : Prop :=
  ∀ before m after name, ms = before ++ m :: after → m.wordsName? = some name → name ∉ known →
    (∀ m' ∈ before, m'.wordsName? ≠ some name) → m.kind ≠ .multiWord []

theorem valuesFirst_cons {known : List String} {m : Mold} {ms : List Mold} :
    ValuesFirst known (m :: ms) ↔
      (∀ name, m.wordsName? = some name → name ∉ known → m.kind ≠ .multiWord []) ∧
        ValuesFirst (m.wordsName?.toList ++ known) ms := by
  constructor
  · intro h
    refine ⟨fun name hname hknown => h [] m ms name rfl hname hknown (by simp), ?_⟩
    intro before m' after name hms hname hknown hbefore
    simp only [List.mem_append, Option.mem_toList, not_or] at hknown
    refine h (m :: before) m' after name (by rw [hms, List.cons_append]) hname hknown.2 ?_
    intro m'' hm''
    rcases List.mem_cons.1 hm'' with rfl | hm''
    · exact hknown.1
    · exact hbefore m'' hm''
  · rintro ⟨hm, hms⟩ before m' after name hsplit hname hknown hbefore
    cases before with
    | nil =>
      obtain ⟨rfl, -⟩ := List.cons.inj hsplit
      exact hm name hname hknown
    | cons m'' before =>
      obtain ⟨rfl, rfl⟩ := List.cons.inj hsplit
      refine hms before m' after name rfl hname ?_ fun d hd => hbefore d (List.mem_cons_of_mem m hd)
      simp only [List.mem_append, Option.mem_toList, not_or]
      exact ⟨hbefore m List.mem_cons_self, hknown⟩

theorem valuesFirst_congr {known known' : List String} {ms : List Mold}
    (h : ∀ name, name ∈ known ↔ name ∈ known') : ValuesFirst known ms ↔ ValuesFirst known' ms := by
  simp only [ValuesFirst, h]

theorem undefined?_eq_none_iff {known : List String} {ms : List Mold} :
    undefined? known ms = none ↔ ValuesFirst known ms := by
  induction ms generalizing known with
  | nil => simp [undefined?, ValuesFirst]
  | cons m ms ih =>
    rw [valuesFirst_cons, undefined?]
    split
    case h_1 name hkind hname =>
      have hwords : m.wordsName? = some name := by rw [wordsName?, hkind, hname]
      by_cases hknown : name ∈ known
      · have hsame : ∀ name', name' ∈ m.wordsName?.toList ++ known ↔ name' ∈ known := by
          simp only [hwords, Option.toList_some, List.singleton_append, List.mem_cons]
          grind
        rw [if_pos hknown, ih, valuesFirst_congr hsame]
        simp [hwords, hknown]
      · simp [hwords, hknown, hkind]
    case h_2 words name hne hkind hname =>
      have hwords : m.wordsName? = some name := by rw [wordsName?, hkind, hname]
      rw [ih, hwords]
      simpa [hkind] using fun _ _ => hne
    case h_3 hempty hsome =>
      have hwords : m.wordsName? = none := by
        unfold wordsName?
        split
        case h_1 words hkind =>
          exact Option.eq_none_iff_forall_ne_some.2 fun name => hsome words name hkind
        case h_2 => rfl
      simp [hwords, ih]

end Values

section Texts

theorem ofTokens_eq_ok_iff {size : Nat} {ts : List Token} {m : Mold} :
    ofTokens size ts = .ok m ↔ Form ts m ∧ ValuesFirst [] m.preorder := by
  rw [← undefined?_eq_none_iff]
  unfold ofTokens
  constructor
  · intro h
    split at h
    case isTrue => cases h
    case isFalse =>
      obtain ⟨⟨root, rest⟩, hform, hrest⟩ := Draft.bind_eq_ok h
      cases rest with
      | cons t rest =>
        dsimp only at hrest
        split at hrest <;> cases hrest
      | nil =>
        obtain ⟨used, rfl, hused⟩ := form_eq_ok_iff.1 hform
        dsimp only at hrest
        split at hrest
        case h_1 hnone =>
          cases hrest
          rw [List.append_nil]
          exact ⟨hused, hnone⟩
        case h_2 => cases hrest
  · rintro ⟨hform, hvalues⟩
    have hne : ts.isEmpty = false := by
      simpa using List.ne_nil_of_length_pos hform.length_pos
    have hread : form size ts = .ok (m, []) := form_eq_ok_iff.2 ⟨ts, by simp, hform⟩
    simp [hne, hread, hvalues, bind, Except.bind, pure, Except.pure]

/-- A text has a mold tree iff it splits into the tokens of a form that derives the tree, and in the tree
the first `MULTI-WORD` of each name has values. -/
theorem compile_eq_ok_iff (source : String) (m : Mold) : compile source = .ok m ↔
    ∃ ts, Splits 0 source.toList ts ∧ Form ts m ∧ ValuesFirst [] m.preorder := by
  rw [compile, read]
  constructor
  · intro h
    obtain ⟨ts, htokens, hread⟩ := Draft.bind_eq_ok h
    exact ⟨ts, tokens_eq_ok_iff.1 htokens, ofTokens_eq_ok_iff.1 hread⟩
  · rintro ⟨ts, hsplit, hform⟩
    rw [tokens_eq_ok_iff.2 hsplit]
    exact ofTokens_eq_ok_iff.2 hform

end Texts

end Mold
end DdlSchema
