import DdlSchema.Command.Run
import DdlSchema.Proofs.Script.RoundTrip

/-! The clauses of a script. Each statement defines one, whatever stands before it. -/
namespace DdlSchema
namespace Command

/-- Each of some statements defines one clause. -/
def Defines (ss : List Statement) (cs : List Clause) : Prop :=
  List.Forall₂ (fun s c => Sqlite.parse s.text = .ok [c]) ss cs

section Statements

variable {s : Statement}

theorem verdict_of_parse (d : Draft) {r : Except Error (List Clause)} (h : Sqlite.parse s.text = r) :
    (Sqlite.parser.parseInto s.text d).verdict = r.map fun _ => () := by
  rw [Sqlite.parser_follows.verdict_parseInto, ← h]
  rfl

theorem parseStatements_cons_ok (d : Draft) (ss : List Statement) {cs : List Clause}
    (h : Sqlite.parse s.text = .ok cs) :
    ∃ d' : Draft, d'.clauses = d.clauses ++ cs ∧
      parseStatements d (s :: ss) = parseStatements d' ss := by
  refine ⟨(Sqlite.parser.parseInto s.text d).draft, ?_, ?_⟩
  · rw [Sqlite.parser_follows.clauses_parseInto]
    have hparse : Sqlite.parser.parse s.text = .ok cs := h
    rw [hparse]
    rfl
  · rw [parseStatements, verdict_of_parse d h]
    rfl

theorem parseStatements_cons_error (d : Draft) (ss : List Statement) {e : Error}
    (h : Sqlite.parse s.text = .error e) :
    parseStatements d (s :: ss) = .error ⟨e, s.extent⟩ := by
  rw [parseStatements, verdict_of_parse d h]
  rfl

theorem exists_clause_of_parse {sql : String} {cs : List Clause} (h : Sqlite.parse sql = .ok cs) :
    ∃ c, cs = [c] := by
  obtain ⟨s, -, -, rfl⟩ := Sqlite.exists_definition_of_parse h
  exact ⟨s.clause, rfl⟩

/-- Statements are read where each of them defines a clause, and then these are added in their order. -/
theorem parseStatements_eq_ok_iff {d : Draft} {ss : List Statement} {cs : List Clause} :
    parseStatements d ss = .ok cs ↔ ∃ more, Defines ss more ∧ cs = d.clauses ++ more := by
  induction ss generalizing d with
  | nil =>
    simp [parseStatements, Defines, eq_comm]
  | cons s ss ih =>
    cases hs : Sqlite.parse s.text with
    | error e =>
      rw [parseStatements_cons_error d ss hs]
      refine ⟨nofun, ?_⟩
      rintro ⟨more, hmore, -⟩
      obtain ⟨c, -, hc, -, rfl⟩ := List.forall₂_cons_left_iff.1 hmore
      rw [hs] at hc
      cases hc
    | ok front =>
      obtain ⟨c, rfl⟩ := exists_clause_of_parse hs
      obtain ⟨d', hd', hparse⟩ := parseStatements_cons_ok d ss hs
      rw [hparse, ih, hd']
      constructor
      · rintro ⟨more, hmore, rfl⟩
        exact ⟨c :: more, .cons hs hmore, by simp⟩
      · rintro ⟨more, hmore, rfl⟩
        obtain ⟨c', more, hc', hrest, rfl⟩ := List.forall₂_cons_left_iff.1 hmore
        obtain rfl : c = c' := by
          rw [hs] at hc'
          simpa using hc'
        exact ⟨more, hrest, by simp⟩

theorem parseScript_eq_ok_iff {script : String} {cs : List Clause} :
    parseScript script = .ok cs ↔ Defines (Statement.split script) cs := by
  rw [parseScript, parseStatements_eq_ok_iff]
  simp

end Statements

section Instance

open Script (countingText countingTable writes_countingText parse_of_writes staysInFuel_of_writes)

/-- An index of the table that counts up. Its name holds a separator, and no brackets can hold it. -/
def countedIndex : Sqlite.IndexDef :=
  { name := "i;]", table := "t", columns := ⟨⟨"a", some .ascending⟩, []⟩ }

theorem countedIndex_isWritable : countedIndex.IsWritable := ⟨by decide, by decide, by decide⟩

def indexText : String := "CREATE INDEX \"i;]\" ON [t]([a] ASC)"

/-- The index in front of its table. -/
def indexedScript : String := indexText ++ ";\n" ++ countingText

theorem split_indexedScript :
    Statement.split indexedScript = [⟨0, indexText⟩, ⟨36, countingText⟩] := by
  decide

theorem parse_countingText : Sqlite.parse countingText = .ok [.table countingTable.table] :=
  (parse_of_writes (s := .table countingTable) writes_countingText
    (staysInFuel_of_writes writes_countingText (by decide)) [.table countingTable.table]).2
    ⟨by decide, rfl⟩

theorem parse_indexText : Sqlite.parse indexText = .ok [.index countedIndex.index] := by
  obtain ⟨text, htext, hwrites⟩ :=
    Script.createIndex_eq_ok (d := .brackets) (.inl rfl) countedIndex_isWritable
  have hindex : Script.createIndex .brackets countedIndex.index = .ok indexText := by
    decide
  obtain rfl : text = indexText := Except.ok.inj (htext.symm.trans hindex)
  exact (parse_of_writes (s := .index countedIndex.rewritten) hwrites
    (staysInFuel_of_writes hwrites (by decide)) _).2 ⟨trivial, rfl⟩

/-- What the script defines. -/
def indexedClauses : List Clause := [.index countedIndex.index, .table countingTable.table]

theorem defines_indexedScript : Defines (Statement.split indexedScript) indexedClauses := by
  rw [split_indexedScript]
  exact .cons parse_indexText (.cons parse_countingText .nil)

end Instance

end Command
end DdlSchema
