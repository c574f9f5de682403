import DdlSchema.Diagnostic.Highlight
import DdlSchema.Proofs.Sqlite.Presentation
import DdlSchema.Proofs.Statement.Whole
import DdlSchema.Proofs.Token.Geometry

/-! Where the errors of a statement are shown in its script: at whole characters of the statement, or
right behind it where it ends too early. There one byte is shown, and white space of several bytes is cut
by it. -/
namespace DdlSchema

/-- Whether a byte offset lies between two characters of a text or at one of its ends. -/
def IsBoundary (cs : List Char) (n : Nat) : Prop :=
  ∃ before behind, cs = before ++ behind ∧ n = byteSize before

section Boundaries

theorem isBoundary_size (cs : List Char) : IsBoundary cs (byteSize cs) :=
  ⟨cs, [], (List.append_nil cs).symm, rfl⟩

/-- Behind the first byte of a character there is a boundary where the character has no other. -/
theorem isBoundary_succ_iff (front : List Char) (c : Char) (behind : List Char) :
    IsBoundary (front ++ c :: behind) (byteSize front + 1) ↔ c.utf8Size = 1 := by
  constructor
  · rintro ⟨before, rest, htext, hsize⟩
    rcases List.append_eq_append_iff.1 htext with ⟨more, rfl, hmore⟩ | ⟨more, rfl, -⟩
    · rw [byteSize_append, Nat.add_left_cancel_iff] at hsize
      cases more with
      | nil => cases hsize
      | cons d more =>
        obtain rfl : c = d := (List.cons.inj hmore).1
        have hpos := c.utf8Size_pos
        rw [byteSize_cons] at hsize
        omega
    · rw [byteSize_append] at hsize
      omega
  · intro hc
    refine ⟨front ++ [c], behind, by simp, ?_⟩
    simp [hc]

end Boundaries

namespace Diagnostic

section Fitting

variable {limit n : Nat} {e : Extent}

theorem fit_of_lt (h : e.start < e.stop) (hlimit : e.stop ≤ limit) : fit limit e = e := by
  have hstart : min e.start limit = e.start := by omega
  have hstop : min e.stop limit = e.stop := by omega
  rw [fit, hstart, hstop, if_neg (Nat.ne_of_lt h)]

theorem fit_empty (h : n ≤ limit) : fit limit ⟨n, n⟩ = ⟨n, min (n + 1) limit⟩ := by
  simp [fit, Nat.min_eq_left h]

end Fitting

section Errors

variable {limit : Nat} {x r : Extent} {e : Error}

/-- Whether a statement ends where something else is expected. -/
def IsUnexpectedEnd (e : Error) : Prop := ∃ expected, e = .parse (.unexpectedEnd expected)

/-- What an error of a statement in some extent is shown as: the byte behind the statement where it ends
too early, and else a span with a property. -/
def Shows (e : Error) (limit : Nat) (x r : Extent) (P : Span → Prop) : Prop :=
  IsUnexpectedEnd e ∧ r = fit limit ⟨x.stop, x.stop⟩ ∨
    ¬IsUnexpectedEnd e ∧ ∃ span, P span ∧ r = fit limit (span.shift x.start)

/-- What the parser says of the next token is shown at that token. -/
theorem shows_of_agree {next next' : Option Token} {e' : Error}
    (h : Error.Agree next next' e e') (hr : highlight e (some x) limit = some r) :
    Shows e limit x r fun span => ∃ t ∈ next, t.span = span := by
  cases h with
  | unexpectedToken t u expected =>
    exact .inr ⟨nofun, t.span, ⟨t, rfl, rfl⟩, (Option.some.inj hr).symm⟩
  | unexpectedEnd expected => exact .inl ⟨⟨expected, rfl⟩, (Option.some.inj hr).symm⟩
  | invalidValue t u reason =>
    exact .inr ⟨nofun, t.span, ⟨t, rfl, rfl⟩, (Option.some.inj hr).symm⟩
  | conflictAtToken t u table =>
    exact .inr ⟨nofun, t.span, ⟨t, rfl, rfl⟩, (Option.some.inj hr).symm⟩
  | conflict => cases hr
  | draft => cases hr
  | ambiguous next next' nodes =>
    cases next with
    | none => cases hr
    | some t => exact .inr ⟨nofun, t.span, ⟨t, rfl, rfl⟩, (Option.some.inj hr).symm⟩
  | fuelExhausted => cases hr

/-- An error of a statement is shown at characters of the statement, or behind it. -/
theorem shows_of_parseInto {sql : String} {d : Draft}
    (he : (Sqlite.parser.parseInto sql d).verdict = .error e)
    (hr : highlight e (some x) limit = some r) :
    Shows e limit x r fun span => span.IsIn sql.toList := by
  rw [Parser.parseInto, Sqlite.parser_lexer] at he
  cases htokens : tokenize Sqlite.lexer sql with
  | error refusal =>
    rw [htokens] at he
    obtain rfl : .lex refusal = e := Except.error.inj he
    refine .inr ⟨nofun, refusal.span, Lexer.isIn_of_refused htokens, (Option.some.inj hr).symm⟩
  | ok ts =>
    rw [htokens] at he
    -- A run agrees with itself, so its error is one of those that two runs can agree on.
    have hsame : List.Forall₂ (fun t u => Sqlite.Symbol.ofToken t = Sqlite.Symbol.ofToken u) ts ts :=
      List.forall₂_same.2 fun t _ => rfl
    obtain ⟨-, -, ⟨hok, -⟩ | ⟨e₁, e₂, he₁, -, hagree⟩⟩ :=
      Sqlite.parser_follows.blind.parseTokens_agree hsame d
    · rw [hok] at he
      cases he
    · obtain rfl : e₁ = e := Except.error.inj (he₁.symm.trans he)
      refine (shows_of_agree hagree hr).imp_right fun ⟨hend, span, ⟨t, ht, hspan⟩, hr⟩ => ?_
      have hin := (Lexer.scans_of_tokens htokens).isIn (List.mem_of_getElem? ht)
      exact ⟨hend, span, hspan ▸ hin, hr⟩

end Errors

section Places

variable {cs before text behind : List Char}

/-- A span of a statement is shown as it is. -/
theorem exists_fit_span (hcs : cs = before ++ (text ++ behind)) {span : Span} (h : span.IsIn text) :
    ∃ start stop, fit (byteSize cs) (span.shift (byteSize before)) = ⟨start, stop⟩ ∧
      byteSize before ≤ start ∧ start < stop ∧ stop ≤ byteSize before + byteSize text ∧
      IsBoundary cs start ∧ IsBoundary cs stop := by
  obtain ⟨front, taken, rest, rfl, hne, rfl⟩ := h
  have hpos := byteSize_pos hne
  have hsize := congrArg byteSize hcs
  simp only [byteSize_append] at hsize
  have hstart : IsBoundary cs (byteSize front + byteSize before) := by
    refine ⟨before ++ front, taken ++ (rest ++ behind), by simp [hcs], ?_⟩
    rw [byteSize_append, Nat.add_comm]
  have hstop : IsBoundary cs (byteSize front + byteSize taken + byteSize before) := by
    refine ⟨before ++ (front ++ taken), rest ++ behind, by simp [hcs], ?_⟩
    rw [byteSize_append, byteSize_append, Nat.add_comm]
  refine ⟨_, _, fit_of_lt ?_ ?_, ?_, ?_, ?_, hstart, hstop⟩ <;>
    simp only [Extent.shift, byteSize_append] <;> omega

/-- Behind a statement one byte is shown where there is one, and that may be the first of several. -/
theorem exists_fit_behind (hcs : cs = before ++ behind)
    (hbehind : ∀ c ∈ behind.head?, Text.isWhiteSpace c = true ∨ c = ';') :
    ∃ stop, fit (byteSize cs) ⟨byteSize before, byteSize before⟩ = ⟨byteSize before, stop⟩ ∧
      byteSize before ≤ stop ∧ stop ≤ byteSize cs ∧
      (byteSize before < stop ∨ byteSize before = byteSize cs) ∧
      (IsBoundary cs stop ↔ ¬∃ front c rest, cs = front ++ c :: rest ∧
        byteSize front = byteSize before ∧ Text.isWhiteSpace c = true ∧ 1 < c.utf8Size) := by
  have hsize := congrArg byteSize hcs
  rw [byteSize_append] at hsize
  refine ⟨_, fit_empty (by omega), by omega, Nat.min_le_right _ _, by omega, ?_⟩
  cases behind with
  | nil =>
    have hend : byteSize before = byteSize cs := hsize.symm
    rw [hend, Nat.min_eq_right (Nat.le_succ _)]
    refine iff_of_true (isBoundary_size cs) ?_
    rintro ⟨front, c, rest, rfl, hfront, -, -⟩
    have hpos := c.utf8Size_pos
    simp only [byteSize_append, byteSize_cons] at hfront
    omega
  | cons c behind =>
    have hpos := c.utf8Size_pos
    rw [byteSize_cons] at hsize
    rw [Nat.min_eq_left (by omega)]
    constructor
    · rintro hstop ⟨front, d, rest, hother, hfront, -, hwide⟩
      rw [hother, ← hfront, isBoundary_succ_iff] at hstop
      omega
    · intro hcut
      rw [hcs, isBoundary_succ_iff]
      by_contra hwide
      rcases hbehind c rfl with hwhite | rfl
      · exact hcut ⟨before, c, behind, hcs, rfl, hwhite, by omega⟩
      · exact hwide rfl

end Places

/-- An error of a statement is shown at whole characters of the script, at least one unless it is at
the end: at characters of the statement, or right behind it where it ends too early. There one byte is
shown, and so white space of several bytes is cut, and nothing else is. -/
theorem highlight_shows_characters (script : String) (s : Statement)
    (hs : s ∈ Statement.split script) (d : Draft) (e : Error)
    (he : (Sqlite.parser.parseInto s.text d).verdict = .error e) (r : Extent)
    (hr : highlight e (some s.extent) (byteSize script.toList) = some r) :
    r.start ≤ r.stop ∧ r.stop ≤ byteSize script.toList ∧ IsBoundary script.toList r.start ∧
      (r.start < r.stop ∨ r.start = byteSize script.toList) ∧
      (IsUnexpectedEnd e → r.start = s.stop) ∧
      (¬IsUnexpectedEnd e → s.start ≤ r.start ∧ r.stop ≤ s.stop) ∧
      (IsBoundary script.toList r.stop ↔ ¬(IsUnexpectedEnd e ∧ ∃ front c behind,
        script.toList = front ++ c :: behind ∧ byteSize front = s.stop ∧
          Text.isWhiteSpace c = true ∧ 1 < c.utf8Size)) := by
  obtain ⟨before, behind, hscript, -, hstart, hbehind⟩ := Statement.standsIn_of_mem hs
  rw [Nat.zero_add] at hstart
  have hsize := congrArg byteSize hscript
  rw [byteSize_append, byteSize_append] at hsize
  have hstop : s.stop = byteSize (before ++ s.text.toList) := by
    rw [Statement.stop, hstart, byteSize_append]
  rcases shows_of_parseInto he hr with ⟨hend, hfit⟩ | ⟨hend, span, hin, hfit⟩
  · have hwhole : script.toList = (before ++ s.text.toList) ++ behind := by
      rw [hscript, List.append_assoc]
    obtain ⟨stop, hshown, hle, hlimit, hlt, hcut⟩ := exists_fit_behind hwhole hbehind
    rw [← hstop] at hshown hle hlt hcut
    have hfirst : IsBoundary script.toList s.stop := ⟨_, _, hwhole, hstop⟩
    have hfit' : r = ⟨s.stop, stop⟩ := hfit.trans hshown
    subst hfit'
    refine ⟨hle, hlimit, hfirst, hlt, fun _ => rfl, fun h => absurd hend h, ?_⟩
    rw [hcut]
    exact not_congr (and_iff_right hend).symm
  · obtain ⟨start, stop, hshown, hle, hlt, hge, hfirst, hlast⟩ := exists_fit_span hscript hin
    have hfit' : r = ⟨start, stop⟩ := by
      rw [hfit, ← hshown, Statement.extent, hstart]
    subst hfit'
    rw [Statement.stop, hstart]
    have hlimit : stop ≤ byteSize script.toList := by omega
    refine ⟨hlt.le, hlimit, hfirst, .inl hlt, fun h => absurd h hend, fun _ => ⟨hle, hge⟩, ?_⟩
    exact iff_of_true hlast fun h => hend h.1

section Instance

/-- A name, and a statement that ends too early, in front of an ideographic space. -/
def blankScript : String := "[é];CREATE\u3000"

theorem split_blankScript : Statement.split blankScript = [⟨0, "[é]"⟩, ⟨5, "CREATE"⟩] := by
  decide

def createExpected : List String := ["'TABLE'", "'UNIQUE'", "'INDEX'"]

theorem verdict_create : (Sqlite.parser.parseInto "CREATE" {}).verdict =
    .error (.parse (.unexpectedEnd createExpected)) := by
  rw [Sqlite.parser_eq]
  decide +kernel

theorem verdict_name : (Sqlite.parser.parseInto "[é]" {}).verdict =
    .error (.parse (.unexpectedToken "identifier \"é\"" ⟨⟨0, 4⟩, ⟨1, 1⟩⟩ ["'CREATE'"])) := by
  rw [Sqlite.parser_eq]
  decide +kernel

/-- The name is shown as a whole, and of the white space the first of three bytes. -/
theorem highlight_shows_characters_blankScript :
    (IsBoundary blankScript.toList 0 ∧ IsBoundary blankScript.toList 4) ∧
      IsBoundary blankScript.toList 11 ∧ ¬IsBoundary blankScript.toList 12 := by
  have hsplit := split_blankScript
  constructor
  · have hs : ⟨0, "[é]"⟩ ∈ Statement.split blankScript := by simp [hsplit]
    obtain ⟨-, -, hstart, -, -, -, hstop⟩ := highlight_shows_characters blankScript ⟨0, "[é]"⟩
      hs {} _ verdict_name ⟨0, 4⟩ rfl
    exact ⟨hstart, hstop.2 fun ⟨⟨_, hend⟩, _⟩ => nomatch hend⟩
  · have hs : ⟨5, "CREATE"⟩ ∈ Statement.split blankScript := by simp [hsplit]
    obtain ⟨-, -, hstart, -, -, -, hstop⟩ := highlight_shows_characters blankScript ⟨5, "CREATE"⟩
      hs {} _ verdict_create ⟨11, 12⟩ rfl
    refine ⟨hstart, fun h => hstop.1 h ⟨⟨_, rfl⟩, "[é];CREATE".toList, '\u3000', [], rfl, rfl, ?_, ?_⟩⟩
    all_goals decide

/-- A statement that ends too early is shown at a byte that is no character. -/
theorem highlight_cuts_blank : ⟨5, "CREATE"⟩ ∈ Statement.split blankScript ∧
    (Sqlite.parser.parseInto "CREATE" {}).verdict =
      .error (.parse (.unexpectedEnd createExpected)) ∧
    highlight (.parse (.unexpectedEnd createExpected)) (some ⟨5, 11⟩) (byteSize blankScript.toList) =
      some ⟨11, 12⟩ ∧
    ¬IsBoundary blankScript.toList 12 := by
  refine ⟨by rw [split_blankScript]; simp, verdict_create, rfl, ?_⟩
  have hcut := isBoundary_succ_iff "[é];CREATE".toList '\u3000' []
  have hwide : ('\u3000' : Char).utf8Size ≠ 1 := by decide
  exact fun h => hwide (hcut.1 h)

end Instance

end Diagnostic
end DdlSchema
