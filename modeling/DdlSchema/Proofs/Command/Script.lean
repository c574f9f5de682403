import DdlSchema.Proofs.Command.Parse
import DdlSchema.Proofs.Script.Split

/-! The clauses of a script, printed and read again. The printed script has the statements that were
printed, and where the printer loses nothing it defines the same clauses. -/
namespace DdlSchema
namespace Command

open Script (IsStatement StaysInFuel joined)

variable {d : Delimiter} {ss : List Statement} {cs : List Clause}

section Printing

theorem Defines.exists_parse (h : Defines ss cs) {c : Clause} (hc : c ∈ cs) :
    ∃ sql, Sqlite.parse sql = .ok [c] := by
  induction h with
  | nil => cases hc
  | @cons s c' _ _ hs _ ih =>
    rcases List.mem_cons.1 hc with rfl | hc
    · exact ⟨s.text, hs⟩
    · exact ih hc

theorem exists_definition_of_clause {sql : String} {c : Clause} (h : Sqlite.parse sql = .ok [c]) :
    ∃ s : Sqlite.Definition, s.IsValid ∧ (∀ x ∈ s.symbols, x.IsWritable) ∧ c = s.clause := by
  obtain ⟨s, hvalid, hwritable, hcs⟩ := Sqlite.exists_definition_of_parse h
  exact ⟨s, hvalid, hwritable, (List.cons.inj hcs).1⟩

/-- A printed clause is one statement, if a statement defines it. -/
theorem Defines.isStatement (h : Defines ss cs) {withConstraints : Bool} {sts : List String}
    (hsts : cs.mapM (Script.create d withConstraints) = .ok sts) : ∀ s ∈ sts, IsStatement s := by
  refine forall_of_mapM_eq_ok hsts fun c hc text htext => ?_
  obtain ⟨sql, hsql⟩ := h.exists_parse hc
  obtain ⟨s, -, -, rfl⟩ := exists_definition_of_clause hsql
  exact Script.isStatement_create htext

end Printing

section Reading

/-- A clause that a statement defines is read back from what is printed of it. -/
theorem parse_of_create (hd : d = .brackets ∨ d = .doubleQuotes) {sql text : String} {c : Clause}
    (h : Sqlite.parse sql = .ok [c]) (hunique : ∀ t, c = .table t → t.IdentityNameIsUnique)
    (htext : Script.create d true c = .ok text) (hfuel : StaysInFuel text) :
    Sqlite.parse text = .ok [c] := by
  obtain ⟨s, hvalid, hwritable, rfl⟩ := exists_definition_of_clause h
  cases s with
  | table t =>
    have hreads := Script.tableReadsBack hd (Sqlite.TableDef.isWritable hvalid hwritable) hvalid
    exact (hreads.parse_iff text htext hfuel).2 (hunique t.table rfl)
  | index i =>
    obtain ⟨text', htext', hreads⟩ := Script.indexReadsBack hd (Sqlite.IndexDef.isWritable hwritable)
    obtain rfl : text' = text := Except.ok.inj (htext'.symm.trans htext)
    exact hreads hfuel

/-- Statements that are read unless they are too long are read where the script is not. -/
theorem defines_of_staysInFuel {draft : Draft}
    (h : List.Forall₂ (fun c s => StaysInFuel s.text → Sqlite.parse s.text = .ok [c]) cs ss)
    (hfuel : ∀ f, parseStatements draft ss = .error f → ∀ n, f.error ≠ .fuelExhausted n) :
    Defines ss cs := by
  induction h generalizing draft with
  | nil => exact .nil
  | @cons c s cs ss hs _ ih =>
    have hstays : StaysInFuel s.text := by
      intro n hn
      exact hfuel _ (parseStatements_cons_error draft ss hn) n rfl
    have hparse := hs hstays
    obtain ⟨draft', -, hnext⟩ := parseStatements_cons_ok draft ss hparse
    rw [hnext] at hfuel
    exact .cons hparse (ih hfuel)

/-- A script is not too long where none of its statements is. -/
theorem error_ne_fuelExhausted {draft : Draft} (h : ∀ s ∈ ss, StaysInFuel s.text) :
    ∀ f, parseStatements draft ss = .error f → ∀ n, f.error ≠ .fuelExhausted n := by
  induction ss generalizing draft with
  | nil => nofun
  | cons s ss ih =>
    intro f hf n
    cases hs : Sqlite.parse s.text with
    | error e =>
      rw [parseStatements_cons_error draft ss hs] at hf
      obtain rfl := Except.error.inj hf
      rintro rfl
      exact h s List.mem_cons_self n hs
    | ok cs =>
      obtain ⟨draft', -, hnext⟩ := parseStatements_cons_ok draft ss hs
      rw [hnext] at hf
      exact ih (fun s' hs' => h s' (List.mem_cons_of_mem s hs')) f hf n

end Reading

/-- The clauses of a script, printed, are a script of just the statements that were printed, one for
each clause. If the constraints are printed, in quotes that the parser reads, this script defines the same
clauses, and so it is what is printed of its own clauses. It must not be too long for the parser, and no
column may share the name of the one that counts up. -/
theorem parseScript_render (script : String) (cs : List Clause) (h : parseScript script = .ok cs)
    (d : Delimiter) (withConstraints : Bool) (out : String)
    (hout : Script.render d withConstraints cs = .ok out) :
    cs.mapM (Script.create d withConstraints) = .ok ((Statement.split out).map (·.text)) ∧
      (withConstraints = true → d = .brackets ∨ d = .doubleQuotes →
        (∀ t, .table t ∈ cs → t.IdentityNameIsUnique) →
        (∀ f, parseScript out = .error f → ∀ n, f.error ≠ .fuelExhausted n) →
        parseScript out = .ok cs ∧ Script.render d true cs = .ok out) := by
  have hdefines := parseScript_eq_ok_iff.1 h
  obtain ⟨sts, hsts, rfl⟩ := Script.exists_statements_of_render hout
  have hsplit := Script.split_joined (hdefines.isStatement hsts)
  refine ⟨by rw [hsplit, hsts], ?_⟩
  rintro rfl hd hunique hfuel
  refine ⟨parseScript_eq_ok_iff.2 (defines_of_staysInFuel ?_ hfuel), hout⟩
  have hclauses : ∀ c ∈ cs, (∃ sql, Sqlite.parse sql = .ok [c]) ∧
      ∀ t, c = .table t → t.IdentityNameIsUnique := by
    intro c hc
    refine ⟨hdefines.exists_parse hc, ?_⟩
    rintro t rfl
    exact hunique t hc
  have hall := mapM_eq_ok_iff.1 hsts
  rw [← hsplit, List.forall₂_map_right_iff] at hall
  refine ((List.forall₂_and_left _ _).2 ⟨hclauses, hall⟩).imp ?_
  rintro c s ⟨⟨⟨sql, hsql⟩, hname⟩, htext⟩ hstays
  exact parse_of_create hd hsql hname htext hstays

section Instance

open Script (countingTable createIndex_eq_ok createTable_true_eq_ok staysInFuel_of_writes)

theorem countingTable_isWritable : countingTable.IsWritable where
  name_ne := by decide
  columns := by
    intro c hc
    obtain rfl := List.mem_singleton.1 hc
    exact ⟨by decide, by decide, nofun, nofun⟩
  constraints := nofun

/-- What is printed of the script, and that it is short. -/
theorem exists_render_indexedClauses : ∃ out sts,
    Script.render .brackets true indexedClauses = .ok out ∧
      indexedClauses.mapM (Script.create .brackets true) = .ok sts ∧ ∀ s ∈ sts, StaysInFuel s := by
  obtain ⟨index, hindex, hindexWrites⟩ :=
    createIndex_eq_ok (d := .brackets) (.inl rfl) countedIndex_isWritable
  obtain ⟨table, htable, htableWrites⟩ :=
    createTable_true_eq_ok (d := .brackets) (.inl rfl) countingTable_isWritable (by decide) nofun
  have hsts : indexedClauses.mapM (Script.create .brackets true) = .ok [index, table] :=
    mapM_eq_ok_iff.2 (.cons hindex (.cons htable .nil))
  have hout : Script.render .brackets true indexedClauses = .ok (joined [index, table]) := by
    rw [Script.render, hsts]
    rfl
  refine ⟨joined [index, table], [index, table], hout, hsts, ?_⟩
  intro s hs
  simp only [List.mem_cons, List.not_mem_nil, or_false] at hs
  rcases hs with rfl | rfl
  · exact staysInFuel_of_writes hindexWrites (by decide)
  · exact staysInFuel_of_writes htableWrites (by decide)

theorem parseScript_render_indexedScript : parseScript indexedScript = .ok indexedClauses ∧
    ∃ out, Script.render .brackets true indexedClauses = .ok out ∧
      indexedClauses.mapM (Script.create .brackets true) =
        .ok ((Statement.split out).map (·.text)) ∧ parseScript out = .ok indexedClauses := by
  have hscript := parseScript_eq_ok_iff.2 defines_indexedScript
  obtain ⟨out, sts, hout, hsts, hfuel⟩ := exists_render_indexedClauses
  obtain ⟨hsplit, hfixed⟩ :=
    parseScript_render indexedScript indexedClauses hscript .brackets true out hout
  refine ⟨hscript, out, hout, hsplit, (hfixed rfl (.inl rfl) ?_ ?_).1⟩
  · intro t ht
    obtain rfl : countingTable.table = t := by simpa [indexedClauses, eq_comm] using ht
    exact (Sqlite.TableDef.identityNameIsUnique_iff_countP (by decide)).2 (by decide)
  · refine error_ne_fuelExhausted fun s hs => hfuel s.text ?_
    obtain rfl := Except.ok.inj (hsts.symm.trans hsplit)
    exact List.mem_map_of_mem hs

end Instance

end Command
end DdlSchema
