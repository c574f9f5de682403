import DdlSchema.Json.Reader
import DdlSchema.Json.Writer
import DdlSchema.Proofs.Token.Pieces

/-! JSON text that is read back. What is written for a value, on one line or with an item a line, is read
as this value. -/
namespace DdlSchema
namespace Json

section Strings

theorem hexValue?_hexDigit : ∀ n < 16, hexValue? (hexDigit n) = some n := by decide

/-- The code unit of an escaped control character. -/
theorem unit?_hexDigit {n : Nat} (hn : n < 0x20) :
    unit? '0' '0' (hexDigit (n / 16)) (hexDigit (n % 16)) = some n := by
  have hhigh := hexValue?_hexDigit (n / 16) (by omega)
  have hlow := hexValue?_hexDigit (n % 16) (by omega)
  have hzero : hexValue? '0' = some 0 := rfl
  simp only [unit?, hzero, hhigh, hlow, bind, Option.bind, Option.some.injEq]
  omega

theorem single?_toNat {c : Char} (hc : c.toNat < 0x20) : single? c.toNat = some c := by
  have hsurrogate : ¬(0xD800 ≤ c.toNat ∧ c.toNat < 0xE000) := by omega
  rw [single?, if_neg (by simpa using hsurrogate), Char.ofNat_toNat]

variable {rest more xs : List Char} (h : readChars rest = some (xs, more))

include h

theorem readChars_unescape {c x : Char} (hx : unescape? c = some x) (hu : c ≠ 'u') :
    readChars ('\\' :: c :: rest) = some (x :: xs, more) := by
  rw [readChars.eq_4 _ _ fun _ _ _ _ _ hc _ => hu hc, hx, h]
  rfl

theorem readChars_unit {c : Char} (hc : c.toNat < 0x20) :
    readChars ('\\' :: 'u' :: '0' :: '0' :: hexDigit (c.toNat / 16) :: hexDigit (c.toNat % 16) ::
      rest) = some (c :: xs, more) := by
  simp only [readChars.eq_3, unit?_hexDigit hc, single?_toNat hc, h, bind, Option.bind]

theorem readChars_plain {c : Char} (hquote : c ≠ '"') (hbackslash : c ≠ '\\')
    (hcontrol : ¬c.toNat < 0x20) : readChars (c :: rest) = some (c :: xs, more) := by
  rw [readChars.eq_5 _ _ hquote (fun _ _ _ _ _ hc _ => hbackslash hc)
    fun _ _ hc _ => hbackslash hc, if_neg (by simp [hcontrol, hbackslash]), h]
  rfl

/-- An escaped character is read as itself. -/
theorem readChars_escape (c : Char) : readChars (escape c ++ rest) = some (c :: xs, more) := by
  by_cases hshort : c ∈ ['"', '\\', '\n', '\r', '\t', '\x08', '\x0C']
  · simp only [List.mem_cons, List.not_mem_nil, or_false] at hshort
    rcases hshort with rfl | rfl | rfl | rfl | rfl | rfl | rfl <;>
      exact readChars_unescape h rfl (by decide)
  · simp only [List.mem_cons, List.not_mem_nil, or_false, not_or] at hshort
    obtain ⟨hquote, hbackslash, hn, hr, ht, hb, hf⟩ := hshort
    simp only [escape, hquote, hbackslash, hn, hr, ht, hb, hf, if_false]
    split
    · exact readChars_unit h (by assumption)
    · exact readChars_plain h hquote hbackslash (by assumption)

omit h

theorem readChars_escaped (cs rest : List Char) :
    readChars (cs.flatMap escape ++ '"' :: rest) = some (cs, rest) := by
  induction cs with
  | nil => rfl
  | cons c cs ih =>
    rw [List.flatMap_cons, List.append_assoc]
    exact readChars_escape ih c

end Strings

section Numbers

theorem digits_toDigits (n : Nat) : digits (Nat.toDigits 10 n) = n :=
  Lexer.digitsValue_toDigits n

theorem readNat_toDigits (n : Nat) {rest : List Char} (hrest : ∀ c ∈ rest.head?, c.isDigit = false) :
    readNat (Nat.toDigits 10 n ++ rest) = some (n, rest) := by
  obtain ⟨htake, hdrop⟩ := Lexer.takeWhile_append
    (fun c hc => Lexer.isDigit_of_mem_toDigits hc : ∀ c ∈ Nat.toDigits 10 n, c.isDigit = true) hrest
  rw [readNat, htake]
  split
  case h_1 hnil => exact absurd hnil Nat.toDigits_ne_nil
  case h_2 => rw [hdrop, digits_toDigits]

/-- A number is read as far as its digits go. -/
theorem readInt_toString (i : Int) {rest : List Char} (hrest : ∀ c ∈ rest.head?, c.isDigit = false) :
    readInt ((toString i).toList ++ rest) = some (i, rest) := by
  have hread := readNat_toDigits i.natAbs hrest
  rw [Lexer.toList_toString]
  by_cases hneg : i < 0
  · have habs : -(i.natAbs : Int) = i := by omega
    rw [if_pos hneg, List.singleton_append, List.cons_append, readInt, hread]
    simp only [Option.map_some, habs]
  · have habs : (i.natAbs : Int) = i := by omega
    rw [if_neg hneg, List.nil_append]
    obtain ⟨d, ds, hds⟩ := List.exists_cons_of_ne_nil (Nat.toDigits_ne_nil : Nat.toDigits 10 i.natAbs ≠ [])
    have hminus : d ≠ '-' := by
      rintro rfl
      have hdigit : '-' ∈ Nat.toDigits 10 i.natAbs := by simp [hds]
      exact absurd (Lexer.isDigit_of_mem_toDigits hdigit) (by decide)
    rw [hds] at hread ⊢
    rw [List.cons_append] at hread ⊢
    rw [readInt, hread]
    · simp only [Option.map_some, habs]
    · simpa using hminus

end Numbers

section Values

/-- A layout puts nothing but blanks between the parts of a text. -/
structure Layout.IsBlank (l : Layout) : Prop where
  newline : ∀ depth, ∀ c ∈ l.newline depth, isSpace c = true
  colon : ∃ bs, l.colon = ':' :: bs ∧ ∀ c ∈ bs, isSpace c = true

theorem Layout.isBlank_compact : compact.IsBlank := ⟨nofun, [], rfl, nofun⟩

theorem Layout.isBlank_pretty : pretty.IsBlank := by
  refine ⟨fun depth c hc => ?_, [' '], rfl, List.forall_mem_singleton.2 rfl⟩
  rcases List.mem_cons.1 hc with rfl | hc
  · rfl
  · rw [List.eq_of_mem_replicate hc]
    rfl

theorem skipSpace_append {bs rest : List Char} (hbs : ∀ c ∈ bs, isSpace c = true) :
    skipSpace (bs ++ rest) = skipSpace rest := List.dropWhile_append_of_pos hbs

theorem skipSpace_cons {c : Char} (hc : isSpace c = false) (rest : List Char) :
    skipSpace (c :: rest) = c :: rest := List.dropWhile_cons_of_neg (by simp [hc])

/-- The first character of a number. -/
theorem exists_toString_eq_cons (i : Int) :
    ∃ c cs, (toString i).toList = c :: cs ∧ (c = '-' ∨ c.isDigit = true) := by
  rw [Lexer.toList_toString]
  by_cases hneg : i < 0
  · rw [if_pos hneg]
    exact ⟨'-', _, rfl, .inl rfl⟩
  · obtain ⟨d, ds, hds⟩ := List.exists_cons_of_ne_nil
      (Nat.toDigits_ne_nil : Nat.toDigits 10 i.natAbs ≠ [])
    have hdigit : d ∈ Nat.toDigits 10 i.natAbs := by simp [hds]
    rw [if_neg hneg, hds]
    exact ⟨d, ds, rfl, .inr (Lexer.isDigit_of_mem_toDigits hdigit)⟩

theorem ne_of_number {c d : Char} (hc : c = '-' ∨ c.isDigit = true) (hminus : d ≠ '-')
    (hdigit : d.isDigit = false) : c ≠ d := by
  rintro rfl
  rcases hc with hc | hc
  · exact hminus hc
  · rw [hdigit] at hc
    cases hc

theorem isSpace_of_number {c : Char} (hc : c = '-' ∨ c.isDigit = true) : isSpace c = false := by
  have hne (d : Char) := ne_of_number (d := d) hc
  simp [isSpace, hne ' ', hne '\t', hne '\n', hne '\r']

theorem readValue_number {c : Char} (hc : c = '-' ∨ c.isDigit = true) (fuel : Nat)
    (cs : List Char) : readValue (fuel + 1) (c :: cs) =
      (readInt (c :: cs)).map fun (i, rest) => (int i, rest) := by
  have hne (d : Char) := ne_of_number (d := d) hc
  rw [readValue, skipSpace_cons (isSpace_of_number hc)]
  split <;> simp_all

/-- A value begins with a character that is neither blank nor the end of a list. -/
theorem exists_write_eq_cons (l : Layout) (depth : Nat) (j : Json) :
    ∃ c cs, write l depth j = c :: cs ∧ isSpace c = false ∧ c ≠ ']' := by
  cases j with
  | null => exact ⟨_, _, rfl, rfl, by decide⟩
  | bool b => cases b <;> exact ⟨_, _, rfl, rfl, by decide⟩
  | int i =>
    obtain ⟨c, cs, hcs, hc⟩ := exists_toString_eq_cons i
    exact ⟨c, cs, hcs, isSpace_of_number hc, ne_of_number hc (by decide) rfl⟩
  | str s => exact ⟨_, _, rfl, rfl, by decide⟩
  | arr js => cases js <;> exact ⟨_, _, rfl, rfl, by decide⟩
  | obj fs => cases fs <;> exact ⟨_, _, rfl, rfl, by decide⟩

variable (l : Layout)

/-- With that fuel, a value is read where blanks stand before it and no digit behind it. -/
def ReadsValue (fuel : Nat) : Prop :=
  ∀ depth j bs rest, (∀ c ∈ bs, isSpace c = true) → (∀ c ∈ rest.head?, c.isDigit = false) →
    (write l depth j).length ≤ fuel →
    readValue fuel (bs ++ (write l depth j ++ rest)) = some (j, rest)

def ReadsItems (fuel : Nat) : Prop :=
  ∀ depth j js bs ends rest, (∀ c ∈ bs, isSpace c = true) → (∀ c ∈ ends, isSpace c = true) →
    (write l depth j).length + (writeItems l depth js).length < fuel →
    readItems fuel (bs ++ (write l depth j ++ (writeItems l depth js ++ (ends ++ ']' :: rest)))) =
      some (j :: js, rest)

def ReadsFields (fuel : Nat) : Prop :=
  ∀ depth k j fs bs ends rest, (∀ c ∈ bs, isSpace c = true) → (∀ c ∈ ends, isSpace c = true) →
    (write l depth j).length + (writeFields l depth fs).length < fuel →
    readFields fuel (bs ++ (quoted k ++ (l.colon ++ (write l depth j ++
      (writeFields l depth fs ++ (ends ++ '}' :: rest)))))) = some ((k, j) :: fs, rest)

variable {l} {fuel : Nat}

theorem isDigit_head_of_blanks {bs : List Char} {c : Char} (hbs : ∀ c ∈ bs, isSpace c = true)
    (hc : c.isDigit = false) (rest : List Char) :
    ∀ d ∈ (bs ++ c :: rest).head?, d.isDigit = false := by
  cases bs with
  | nil =>
    rintro d ⟨⟩
    exact hc
  | cons b bs =>
    rintro d ⟨⟩
    refine Bool.eq_false_iff.2 fun hdigit => ?_
    have hb := hbs b List.mem_cons_self
    rw [isSpace_of_number (.inr hdigit)] at hb
    cases hb

/-- Behind an item stands no digit. -/
theorem isDigit_head_items (l : Layout) (depth : Nat) (js : List Json) {ends : List Char}
    (hends : ∀ c ∈ ends, isSpace c = true) (rest : List Char) :
    ∀ c ∈ (writeItems l depth js ++ (ends ++ ']' :: rest)).head?, c.isDigit = false := by
  cases js with
  | nil => exact isDigit_head_of_blanks hends rfl rest
  | cons j js =>
    rintro c ⟨⟩
    rfl

theorem isDigit_head_fields (l : Layout) (depth : Nat) (fs : List (String × Json))
    {ends : List Char} (hends : ∀ c ∈ ends, isSpace c = true) (rest : List Char) :
    ∀ c ∈ (writeFields l depth fs ++ (ends ++ '}' :: rest)).head?, c.isDigit = false := by
  cases fs with
  | nil => exact isDigit_head_of_blanks hends rfl rest
  | cons f fs =>
    rintro c ⟨⟩
    rfl

theorem ReadsItems.succ (hl : l.IsBlank) (hvalue : ReadsValue l fuel) (hitems : ReadsItems l fuel) :
    ReadsItems l (fuel + 1) := by
  intro depth j js bs ends rest hbs hends hfuel
  rw [readItems, hvalue depth j bs _ hbs (isDigit_head_items l depth js hends rest) (by omega)]
  cases js with
  | nil =>
    have hclose : skipSpace (ends ++ ']' :: rest) = ']' :: rest := by
      rw [skipSpace_append hends, skipSpace_cons rfl]
    simp only [writeItems, List.nil_append, bind, Option.bind, hclose]
  | cons j' js =>
    have hmore := hitems depth j' js (l.newline depth) ends rest (hl.newline depth) hends (by
      simp only [writeItems, List.length_cons, List.length_append] at hfuel
      omega)
    simp only [writeItems, List.cons_append, List.append_assoc, bind, Option.bind,
      skipSpace_cons (c := ',') rfl, hmore]

theorem quoted_append (k : String) (rest : List Char) :
    quoted k ++ rest = '"' :: (k.toList.flatMap escape ++ '"' :: rest) := by
  simp [quoted]

theorem ReadsFields.succ (hl : l.IsBlank) (hvalue : ReadsValue l fuel)
    (hfields : ReadsFields l fuel) : ReadsFields l (fuel + 1) := by
  intro depth k j fs bs ends rest hbs hends hfuel
  obtain ⟨gap, hcolon, hgap⟩ := hl.colon
  have hread := hvalue depth j gap _ hgap (isDigit_head_fields l depth fs hends rest) (by omega)
  rw [readFields, skipSpace_append hbs, quoted_append, skipSpace_cons rfl, hcolon]
  simp only [readChars_escaped, bind, Option.bind, List.cons_append, skipSpace_cons (c := ':') rfl, hread, String.ofList_toList]
  cases fs with
  | nil =>
    have hclose : skipSpace (ends ++ '}' :: rest) = '}' :: rest := by
      rw [skipSpace_append hends, skipSpace_cons rfl]
    simp only [writeFields, List.nil_append, hclose]
  | cons f fs =>
    obtain ⟨k', j'⟩ := f
    have hmore := hfields depth k' j' fs (l.newline depth) ends rest (hl.newline depth) hends (by
      simp only [writeFields, List.length_cons, List.length_append] at hfuel
      omega)
    simp only [writeFields, List.cons_append, List.append_assoc, skipSpace_cons (c := ',') rfl, hmore]

theorem ReadsValue.succ (hl : l.IsBlank) (hitems : ReadsItems l fuel)
    (hfields : ReadsFields l fuel) : ReadsValue l (fuel + 1) := by
  intro depth j bs rest hbs hrest hfuel
  obtain ⟨c, cs, hwrite, hc, hclose⟩ := exists_write_eq_cons l depth j
  have hskip : skipSpace (bs ++ (write l depth j ++ rest)) = write l depth j ++ rest := by
    rw [skipSpace_append hbs, hwrite, List.cons_append, skipSpace_cons hc]
  rw [readValue, hskip]
  cases j with
  | null => rfl
  | bool b => cases b <;> rfl
  | int i =>
    obtain ⟨c, cs, hcs, hc⟩ := exists_toString_eq_cons i
    have hread := readValue_number hc fuel (cs ++ rest)
    have hint := readInt_toString i hrest
    rw [hcs, List.cons_append] at hint
    rw [readValue, skipSpace_cons (isSpace_of_number hc), hint] at hread
    rw [write, hcs, List.cons_append]
    exact hread
  | str s =>
    simp only [write, quoted_append, readChars_escaped, Option.map, String.ofList_toList]
  | arr js =>
    cases js with
    | nil => rfl
    | cons j js =>
      obtain ⟨c, cs, hwrite, hc, hclose⟩ := exists_write_eq_cons l (depth + 1) j
      have hread := hitems (depth + 1) j js [] (l.newline depth) rest nofun (hl.newline depth) (by
        simp only [write, List.length_cons, List.length_append] at hfuel
        omega)
      simp only [write, List.cons_append, List.append_assoc, List.nil_append,
        skipSpace_append (hl.newline _), hwrite, skipSpace_cons hc] at hread ⊢
      split
      case h_1 heq => exact absurd (List.cons.inj heq).1 hclose
      case h_2 => rw [hread]; rfl
  | obj fs =>
    cases fs with
    | nil => rfl
    | cons f fs =>
      obtain ⟨k, j⟩ := f
      have hread := hfields (depth + 1) k j fs [] (l.newline depth) rest nofun (hl.newline depth) (by
        simp only [write, List.length_cons, List.length_append] at hfuel
        omega)
      simp only [write, List.cons_append, List.append_assoc, List.nil_append,
        skipSpace_append (hl.newline _), quoted_append, skipSpace_cons (c := '"') rfl] at hread ⊢
      exact congrArg (Option.map fun p => (obj p.1, p.2)) hread

theorem reads (hl : l.IsBlank) (fuel : Nat) :
    ReadsValue l fuel ∧ ReadsItems l fuel ∧ ReadsFields l fuel := by
  induction fuel with
  | zero =>
    refine ⟨fun depth j bs rest _ _ hfuel => ?_, fun _ _ _ _ _ _ _ _ hfuel => ?_,
      fun _ _ _ _ _ _ _ _ _ hfuel => ?_⟩
    · obtain ⟨c, cs, hwrite, -⟩ := exists_write_eq_cons l depth j
      rw [hwrite] at hfuel
      cases hfuel
    · cases hfuel
    · cases hfuel
  | succ fuel ih =>
    obtain ⟨hvalue, hitems, hfields⟩ := ih
    exact ⟨.succ hl hitems hfields, .succ hl hvalue hitems, .succ hl hvalue hfields⟩

/-- The text of a value in a layout of blanks is read as that value. -/
theorem parse?_text (hl : l.IsBlank) (j : Json) : parse? (text l j) = some j := by
  have hread := (reads hl ((text l j).length + 1)).1 0 j [] [] nofun nofun (by
    simp [text])
  rw [List.nil_append, List.append_nil] at hread
  simp only [parse?, text, String.toList_ofList] at hread ⊢
  rw [hread]
  rfl

end Values

end Json
end DdlSchema
