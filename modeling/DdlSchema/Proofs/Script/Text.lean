import DdlSchema.Proofs.Sqlite.Syntax
import DdlSchema.Proofs.Token.Quoted
import DdlSchema.Script

/-! Texts and the symbols that they write, whatever stands behind them, and how texts are put together.
Two texts need a blank or punctuation where they meet. -/
namespace DdlSchema
namespace Script

open Sqlite (Symbol Keyword lexer commaBefore)

section Symbols

/-- The symbols of a text, or none where it is refused. -/
def symbols? (cs : List Char) : Option (List Symbol) :=
  (Lexer.kinds lexer cs).map (List.map Symbol.ofKind)

theorem symbols?_cons {cs rest : List Char} {k : TokenKind}
    (h : Lexer.kinds lexer cs = (Lexer.kinds lexer rest).map (k :: ·)) :
    symbols? cs = (symbols? rest).map (Symbol.ofKind k :: ·) := by
  rw [symbols?, h, symbols?, Option.map_map, Option.map_map]
  rfl

theorem lexer_isPlain : lexer.IsPlain := by
  intro c hc
  have hmem : c ∈ ['(', ')', ','] := List.contains_iff_mem.1 hc
  exact List.mem_append_left [';'] hmem

end Symbols

/-- A text writes symbols if it adds them to those of every text that lets its last token end. -/
def Writes (s : String) (xs : List Symbol) : Prop :=
  ∀ rest, lexer.endsRun rest = true → symbols? (s.toList ++ rest) = (symbols? rest).map (xs ++ ·)

/-- A text that also lets the token in front of it end. -/
structure Trails (s : String) (xs : List Symbol) : Prop where
  endsRun : ∀ rest, lexer.endsRun rest = true → lexer.endsRun (s.toList ++ rest) = true
  writes : Writes s xs

section Composition

variable {s t : String} {xs ys : List Symbol}

theorem Writes.append (hs : Writes s xs) (ht : Trails t ys) : Writes (s ++ t) (xs ++ ys) := by
  intro rest hrest
  rw [String.toList_append, List.append_assoc, hs _ (ht.endsRun rest hrest), ht.writes rest hrest,
    Option.map_map]
  simp [Function.comp_def]

theorem Trails.append (hs : Trails s xs) (ht : Trails t ys) : Trails (s ++ t) (xs ++ ys) where
  endsRun := by
    intro rest hrest
    rw [String.toList_append, List.append_assoc]
    exact hs.endsRun _ (ht.endsRun rest hrest)
  writes := hs.writes.append ht

theorem Trails.empty : Trails "" [] where
  endsRun := by
    intro rest hrest
    exact hrest
  writes := by
    intro rest _
    simp

theorem Writes.blank {b : Char} (hb : Text.isBlank b = true) (hs : Writes s xs) :
    Trails (b.toString ++ s) xs where
  endsRun := by
    intro rest _
    simp [LexerConfig.endsRun, hb]
  writes := by
    intro rest hrest
    have hkinds : Lexer.kinds lexer (b :: (s.toList ++ rest)) = Lexer.kinds lexer (s.toList ++ rest) :=
      Lexer.kinds_blank hb (s.toList ++ rest)
    rw [← hs rest hrest, symbols?, symbols?, ← hkinds]
    simp

theorem Writes.punctuation {c : Char} (hc : lexer.isPunctuation c = true) (hs : Writes s xs) :
    Trails (c.toString ++ s) (.ofKind (.punctuation c) :: xs) where
  endsRun := by
    intro rest _
    simp [LexerConfig.endsRun, hc]
  writes := by
    intro rest hrest
    have hkinds := Lexer.kinds_punctuation lexer_isPlain hc (s.toList ++ rest)
    have hsymbols := symbols?_cons hkinds
    rw [hs rest hrest, Option.map_map] at hsymbols
    simpa [Function.comp_def] using hsymbols

theorem Writes.space (hs : Writes s xs) : Trails (" " ++ s) xs := hs.blank (b := ' ') (by decide)

theorem Writes.opening (hs : Writes s xs) : Trails ("(" ++ s) (.opening :: xs) :=
  hs.punctuation (c := '(') (by decide)

theorem Writes.comma (hs : Writes s xs) : Trails ("," ++ s) (.comma :: xs) :=
  hs.punctuation (c := ',') (by decide)

theorem Trails.closing : Trails ")" [.closing] :=
  Trails.empty.writes.punctuation (c := ')') (by decide)

end Composition

section Lists

variable {sep : String} (hsep : ∀ {s xs}, Writes s xs → Trails (sep ++ s) (.comma :: xs))

include hsep

/-- Lines, with a comma between them. -/
theorem Writes.intercalate {line : String} {lines : List String} {xs : List Symbol}
    {more : List (List Symbol)} (hline : Writes line xs) (hlines : List.Forall₂ Writes lines more) :
    Writes (sep.intercalate (line :: lines)) (xs ++ commaBefore id more) := by
  induction hlines generalizing line xs with
  | nil => simpa [commaBefore] using hline
  | cons hnext _ ih =>
    rw [String.intercalate_cons_cons, String.append_assoc]
    exact hline.append (hsep (ih hnext))

theorem Writes.intercalate_map {α : Type} {text : α → String} {f : α → List Symbol} {first : α}
    {more : List α} (h : ∀ a ∈ first :: more, Writes (text a) (f a)) :
    Writes (sep.intercalate ((first :: more).map text)) (f first ++ commaBefore f more) := by
  have hmore : List.Forall₂ Writes (more.map text) (more.map f) := by
    rw [List.forall₂_map_left_iff, List.forall₂_map_right_iff, List.forall₂_same]
    intro a ha
    exact h a (List.mem_cons_of_mem first ha)
  have hlines := Writes.intercalate hsep (h first List.mem_cons_self) hmore
  rwa [commaBefore, List.flatMap_map] at hlines

end Lists

section Leaves

/-- A word in front of what lets it end. -/
theorem writes_word {w : String} {c : Char} {cs : List Char} (hw : w.toList = c :: cs)
    (hc : Lexer.startsWord c = true) (hcs : cs.all Lexer.continuesWord = true) :
    Writes w [.ofKind (.word w)] := by
  intro rest hrest
  have hkinds := Lexer.kinds_word lexer_isPlain hc (List.all_eq_true.1 hcs) hrest
  rw [← hw, String.ofList_toList] at hkinds
  exact symbols?_cons hkinds

theorem writes_keyword (k : Keyword) : Writes k.text [.keyword k] := by
  have hall : ∀ k ∈ Keyword.all, (k.text.toList.head?.any Lexer.startsWord &&
      k.text.toList.tail.all Lexer.continuesWord) = true := by decide
  have hk := hall k k.mem_all
  cases hw : k.text.toList with
  | nil =>
    rw [hw] at hk
    cases hk
  | cons c cs =>
    rw [hw, Bool.and_eq_true] at hk
    have hword := writes_word hw hk.1 hk.2
    rwa [Symbol.ofKind, Keyword.ofText?_text] at hword

/-- Words with a blank in front of each. -/
theorem trails_keywords (ks : List Keyword) :
    Trails (String.join (ks.map fun k => " " ++ k.text)) (ks.map .keyword) := by
  induction ks with
  | nil => exact Trails.empty
  | cons k ks ih =>
    rw [List.map_cons, String.join_cons]
    exact (writes_keyword k).space.append ih

variable {d : Delimiter}

/-- The lexer reads the quotes that names get. -/
theorem delimiter?_delimiterFor (hd : d = .brackets ∨ d = .doubleQuotes) (name : String) :
    lexer.delimiter? (delimiterFor d name).opening = some (delimiterFor d name) := by
  unfold delimiterFor
  split
  · rcases hd with rfl | rfl <;> rfl
  · rfl

theorem delimiterFor_holds (d : Delimiter) (name : String) :
    (delimiterFor d name).doubles = true ∨ (delimiterFor d name).closing ∉ name.toList := by
  unfold delimiterFor
  split
  · rename_i h
    rcases Bool.or_eq_true_iff.1 h with hdoubles | hfree
    · exact .inl hdoubles
    · exact .inr (by simpa using hfree)
  · exact .inl rfl

/-- A name between quotes. -/
theorem writes_quote (hd : d = .brackets ∨ d = .doubleQuotes) {name : String} (hname : name ≠ "") :
    Writes (quote d name) [.name name] := by
  intro rest hrest
  have hne : name.toList ≠ [] := fun h => hname (String.toList_eq_nil_iff.1 h)
  have hkinds := Lexer.kinds_identifier lexer_isPlain (delimiter?_delimiterFor hd name) hne
    (delimiterFor_holds d name) hrest
  rw [String.ofList_toList] at hkinds
  have hsymbols := symbols?_cons hkinds
  rw [quote, String.toList_ofList, delimited]
  simpa [Lexer.inside, Lexer.doubled, Symbol.ofKind] using hsymbols

/-- A name that stands alone where it can. -/
theorem writes_typeName (hd : d = .brackets ∨ d = .doubleQuotes) {name : String} (hname : name ≠ "") :
    Writes (typeName d name) [.name name] := by
  unfold typeName
  split
  · rename_i hplain
    unfold isPlain at hplain
    rw [Bool.and_eq_true] at hplain
    obtain ⟨hword, hreserved⟩ := hplain
    have hkeyword : Keyword.ofText? name = none := by
      have hcontains := Sqlite.reserved_contains name
      rw [← Sqlite.parser_reserved] at hcontains
      rw [hcontains] at hreserved
      simpa using hreserved
    cases hw : name.toList with
    | nil => exact absurd (String.toList_eq_nil_iff.1 hw) hname
    | cons c cs =>
      rw [hw] at hword
      rw [Bool.and_eq_true] at hword
      have hwrites := writes_word hw hword.1 hword.2
      rwa [Symbol.ofKind, hkeyword] at hwrites
  · exact writes_quote hd hname

theorem writes_integer {n : Int} (hn : Lexer.IsInt64 n) : Writes (toString n) [.integer n] := by
  intro rest hrest
  exact symbols?_cons (Lexer.kinds_integer lexer_isPlain hn hrest)

theorem toList_quoteString (s : String) :
    (Sqlite.quoteString s).toList = '\'' :: (Lexer.doubled '\'' s.toList ++ ['\'']) := by
  have hbody : Lexer.doubled '\'' s.toList =
      s.toList.flatMap fun c => if c = '\'' then ['\'', '\''] else [c] := by
    refine congrArg (List.flatMap · s.toList) (funext fun c => ?_)
    split <;> simp_all
  simp [Sqlite.quoteString, hbody]

theorem writes_quoteString (s : String) : Writes (Sqlite.quoteString s) [.string s] := by
  intro rest hrest
  have hkinds := Lexer.kinds_string lexer_isPlain s.toList hrest
  rw [String.ofList_toList] at hkinds
  have hsymbols := symbols?_cons hkinds
  rw [toList_quoteString, List.cons_append, List.append_assoc]
  exact hsymbols

end Leaves

end Script
end DdlSchema
