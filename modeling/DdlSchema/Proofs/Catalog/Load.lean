import DdlSchema.Proofs.Catalog.Lenient
import DdlSchema.Proofs.Catalog.Order
import DdlSchema.Proofs.Command.Parse

/-! Scripts kept in a catalog are read back without loss: all their tables but the internal ones, sorted
by name, each with its indexes. -/
namespace DdlSchema
namespace Catalog

/-- Whether the database keeps a name for itself. -/
def IsInternalName (name : String) : Prop := "sqlite_".toList <+: name.toList

instance (name : String) : Decidable (IsInternalName name) :=
  inferInstanceAs (Decidable ("sqlite_".toList <+: name.toList))

/-- The tables among some clauses, but for those that the database keeps for itself. -/
def userTables (cs : List Clause) : List Table :=
  cs.filterMap fun
    | .table t => if IsInternalName t.name then none else some t
    | .index _ => none

/-- The indexes of a table among some clauses, but for those that the database keeps for itself. -/
def userIndexes (cs : List Clause) (table : String) : List Index :=
  cs.filterMap fun
    | .table _ => none
    | .index i => if IsInternalName i.name ∨ i.table ≠ table then none else some i

/-- Entries that hold the statements of some clauses, one each. -/
def Stores (es : List Entry) (cs : List Clause) : Prop :=
  List.Forall₂ (fun e c => e.clause = .ok c ∧ e = Entry.ofClause e.sql c) es cs

section Storing

theorem clause_ofClause {sql : String} {c : Clause} (h : Sqlite.parse sql = .ok [c]) :
    (Entry.ofClause sql c).clause = .ok c := by
  have hsql : (Entry.ofClause sql c).sql = sql := by cases c <;> rfl
  rw [Entry.clause, hsql, h]
  rfl

/-- The entries of a script hold the clauses that its statements define. -/
theorem exists_stores_of_ofScript {script : String} {es : List Entry}
    (h : ofScript script = .ok es) :
    ∃ cs, Command.Defines (Statement.split script) cs ∧ Stores es cs := by
  obtain ⟨ess, hess, hes⟩ := Draft.bind_eq_ok h
  rw [← Except.ok.inj hes]
  have hall := mapM_eq_ok_iff.1 hess
  clear h hess hes
  generalize Statement.split script = ss at hall ⊢
  induction hall with
  | nil => exact ⟨[], .nil, .nil⟩
  | @cons s front ss ess hs hall ih =>
    obtain ⟨cs, hparse, hfront⟩ := Draft.bind_eq_ok hs
    obtain ⟨c, rfl⟩ := Command.exists_clause_of_parse hparse
    obtain rfl := Except.ok.inj hfront
    obtain ⟨more, hmore, hstores⟩ := ih
    have hsql : (Entry.ofClause s.text c).sql = s.text := by cases c <;> rfl
    exact ⟨c :: more, .cons hparse hmore, .cons ⟨clause_ofClause hparse, by rw [hsql]⟩ hstores⟩

variable {e : Entry} {es : List Entry} {cs : List Clause}

theorem readTable_of_clause {t : Table} (h : e.clause = .ok (.table t)) : e.readTable = .ok t := by
  rw [Entry.readTable, h]
  rfl

theorem readIndex_of_clause {i : Index} (h : e.clause = .ok (.index i)) : e.readIndex = .ok i := by
  rw [Entry.readIndex, h]
  rfl

theorem Entry.isInternal_eq (e : Entry) :
    e.isInternal = decide (IsInternalName e.name) := by
  rw [Bool.eq_iff_iff, decide_eq_true_iff]
  exact List.isPrefixOf_iff_prefix

theorem Stores.mapM_readTable (h : Stores es cs) :
    (userEntries .table es).mapM Entry.readTable = .ok (userTables cs) := by
  refine mapM_filter_eq_ok h ?_
  rintro e c ⟨hclause, he⟩
  rw [e.isInternal_eq]
  cases c with
  | index i =>
    have hkind : e.kind = .index := congrArg Entry.kind he
    exact .inl ⟨by simp [hkind], rfl⟩
  | table t =>
    have hkind : e.kind = .table := congrArg Entry.kind he
    have hname : e.name = t.name := congrArg Entry.name he
    by_cases hinternal : IsInternalName t.name
    · exact .inl ⟨by simp [hname, hinternal], if_pos hinternal⟩
    · exact .inr ⟨by simp [hkind, hname, hinternal], t, readTable_of_clause hclause,
        if_neg hinternal⟩

theorem Stores.mapM_readIndex (h : Stores es cs) (table : String) :
    ((userEntries .index es).filter (·.tableName == table)).mapM Entry.readIndex =
      .ok (userIndexes cs table) := by
  rw [userEntries, List.filter_filter]
  refine mapM_filter_eq_ok h ?_
  rintro e c ⟨hclause, he⟩
  rw [e.isInternal_eq]
  cases c with
  | table t =>
    have hkind : e.kind = .table := congrArg Entry.kind he
    exact .inl ⟨by simp [hkind], rfl⟩
  | index i =>
    have hkind : e.kind = .index := congrArg Entry.kind he
    have hname : e.name = i.name := congrArg Entry.name he
    have htable : e.tableName = i.table := congrArg Entry.tableName he
    by_cases hleft : IsInternalName i.name ∨ i.table ≠ table
    · refine .inl ⟨?_, if_pos hleft⟩
      rcases hleft with hinternal | hother
      · simp [hname, hinternal]
      · simp [htable, hother]
    · have hkept := not_or.1 hleft
      refine .inr ⟨?_, i, readIndex_of_clause hclause, if_neg hleft⟩
      simp [hkind, hname, htable, hkept.1, not_not.1 hkept.2]

end Storing

section Reading

variable {es : List Entry} {cs : List Clause}

theorem Stores.exists_clause (h : Stores es cs) {e : Entry} (he : e ∈ es) :
    ∃ c, e.clause = .ok c ∧ e = Entry.ofClause e.sql c := by
  induction h with
  | nil => cases he
  | cons hec h ih =>
    rcases List.mem_cons.1 he with rfl | he
    · exact ⟨_, hec⟩
    · exact ih he

theorem Stores.name_of_readTable (h : Stores es cs) {e : Entry} (he : e ∈ es) {t : Table}
    (ht : e.readTable = .ok t) : t.name = e.name := by
  obtain ⟨c, hclause, heq⟩ := h.exists_clause he
  cases c with
  | index i =>
    rw [Entry.readTable, hclause] at ht
    cases ht
  | table t' =>
    obtain rfl : t' = t := Except.ok.inj ((readTable_of_clause hclause).symm.trans ht)
    exact (congrArg Entry.name heq).symm

theorem Stores.name_of_readIndex (h : Stores es cs) {e : Entry} (he : e ∈ es) {i : Index}
    (hi : e.readIndex = .ok i) : i.name = e.name := by
  obtain ⟨c, hclause, heq⟩ := h.exists_clause he
  cases c with
  | table t =>
    rw [Entry.readIndex, hclause] at hi
    cases hi
  | index i' =>
    obtain rfl : i' = i := Except.ok.inj ((readIndex_of_clause hclause).symm.trans hi)
    exact (congrArg Entry.name heq).symm

theorem mem_of_mem_userEntries {kind : ObjectKind} {e : Entry} (h : e ∈ userEntries kind es) :
    e ∈ es := List.mem_of_mem_filter h

variable {c : Catalog} (hes : c.entries = .ok es) (hstores : Stores es cs)

include hes hstores

theorem indexesOf_eq_ok (table : String) : ∃ indexes, c.indexesOf table = .ok indexes ∧
    SortsStably Index.name (userIndexes cs table) indexes := by
  obtain ⟨sorted, hsorted, hstable⟩ := exists_entriesOf hes .index
  have hread := hstores.mapM_readIndex table
  obtain ⟨indexes, hindexes, hstable⟩ := (hstable.filter (·.tableName == table)).mapM
    (fun e he i hi => hstores.name_of_readIndex
      (mem_of_mem_userEntries (List.mem_of_mem_filter he)) hi) hread
  refine ⟨indexes, ?_, hstable⟩
  rw [indexesOf, indexEntries, hsorted]
  exact hindexes

/-- What a strict reading with indexes finds: the tables by name, each with its indexes by name. -/
theorem exists_tables_eq_ok : ∃ (bare : List Table) (indexes : String → List Index),
    SortsStably Table.name (userTables cs) bare ∧
    (∀ name, SortsStably Index.name (userIndexes cs name) (indexes name)) ∧
    c.tables true none = .ok (bare.map fun t => { t with indexes := indexes t.name }) := by
  choose indexes hindexes hsorts using indexesOf_eq_ok hes hstores
  obtain ⟨sorted, hsorted, hstable⟩ := exists_entriesOf hes .table
  have hname : ∀ e ∈ userEntries .table es, ∀ t, e.readTable = .ok t → t.name = e.name :=
    fun e he t ht => hstores.name_of_readTable (mem_of_mem_userEntries he) ht
  obtain ⟨bare, hbare, hstable'⟩ := hstable.mapM hname hstores.mapM_readTable
  refine ⟨bare, indexes, hstable', hsorts, ?_⟩
  have hload : sorted.mapM (c.load true) =
      .ok (bare.map fun t => { t with indexes := indexes t.name }) := by
    refine mapM_eq_ok_map hbare fun e he t ht => ?_
    rw [load_true ht, hindexes, hname e (hstable.mem_iff.1 he) t ht]
    rfl
  rw [tables, hsorted]
  dsimp only [bind, Except.bind]
  rw [hload]
  rfl

end Reading

theorem tables_arranged {c : Catalog} {withIndexes : Bool} {ts : List Table}
    (h : c.tables withIndexes none = .ok ts) (independentFirst : Bool) :
    c.tables withIndexes (some independentFirst) = .ok (arrange independentFirst ts) := by
  obtain ⟨es, hes, h⟩ := Draft.bind_eq_ok h
  obtain ⟨ts', hts, h⟩ := Draft.bind_eq_ok h
  obtain rfl : ts' = ts := Except.ok.inj h
  rw [tables, hes]
  dsimp only [bind, Except.bind]
  rw [hts]
  rfl

theorem tablesLenient_of_tables {c : Catalog} {withIndexes : Bool} {ts : List Table}
    (h : c.tables withIndexes none = .ok ts) : c.tablesLenient withIndexes = .ok (ts, []) := by
  have hagrees := tablesLenient_agrees_tables c withIndexes
  rw [h] at hagrees
  generalize c.tablesLenient withIndexes = lenient at hagrees
  cases hagrees
  rfl

/-- A catalog that holds a script is read back as its clauses: the tables by name, but for the internal
ones, each with its own indexes by name. A lenient reading puts nothing aside, and in the order of the
foreign keys the same tables are found. -/
theorem tables_ofScript (script : String) (es : List Entry) (h : ofScript script = .ok es) :
    ∃ cs, Command.parseScript script = .ok cs ∧
      ∃ (bare : List Table) (indexes : String → List Index) (ts : List Table),
        SortsStably Table.name (userTables cs) bare ∧
        (∀ name, SortsStably Index.name (userIndexes cs name) (indexes name)) ∧
        ts = bare.map (fun t => { t with indexes := indexes t.name }) ∧
        tables ⟨.ok es⟩ true none = .ok ts ∧ tablesLenient ⟨.ok es⟩ true = .ok (ts, []) ∧
        ∀ independentFirst, ∃ us, tables ⟨.ok es⟩ true (some independentFirst) = .ok us ∧
          us.Perm ts := by
  obtain ⟨cs, hdefines, hstores⟩ := exists_stores_of_ofScript h
  obtain ⟨bare, indexes, hbare, hindexes, htables⟩ := exists_tables_eq_ok (c := ⟨.ok es⟩) rfl hstores
  refine ⟨cs, Command.parseScript_eq_ok_iff.2 hdefines, bare, indexes, _, hbare, hindexes, rfl,
    htables, tablesLenient_of_tables htables, fun independentFirst => ?_⟩
  exact ⟨_, tables_arranged htables independentFirst, arrange_perm independentFirst _⟩

section Instance

open Command (indexedScript indexText countedIndex defines_indexedScript parse_indexText
  parse_countingText split_indexedScript)
open Script (countingText countingTable)

/-- The entries of the script in their order. -/
def indexedEntries : List Entry := [.index "i;]" "t" indexText, .table "t" countingText]

theorem ofScript_indexedScript : ofScript indexedScript = .ok indexedEntries := by
  have hentries : ([⟨0, indexText⟩, ⟨36, countingText⟩] : List Statement).mapM (fun s => do
      Except.ok ((← Sqlite.parse s.text).map (Entry.ofClause s.text))) =
      .ok [[.index "i;]" "t" indexText], [.table "t" countingText]] := by
    rw [mapM_eq_ok_iff]
    refine .cons ?_ (.cons ?_ .nil)
    · rw [parse_indexText]
      rfl
    · rw [parse_countingText]
      rfl
  rw [ofScript, split_indexedScript, hentries]
  rfl

theorem tables_ofScript_indexedScript : ofScript indexedScript = .ok indexedEntries ∧
    tables ⟨.ok indexedEntries⟩ true none =
      .ok [{ countingTable.table with indexes := [countedIndex.index] }] := by
  refine ⟨ofScript_indexedScript, ?_⟩
  obtain ⟨cs, hcs, bare, indexes, ts, hbare, hindexes, rfl, hts, -⟩ :=
    tables_ofScript indexedScript indexedEntries ofScript_indexedScript
  obtain rfl : Command.indexedClauses = cs :=
    Except.ok.inj ((Command.parseScript_eq_ok_iff.2 defines_indexedScript).symm.trans hcs)
  have htables : [countingTable.table] = bare :=
    (sortsStably_singleton Table.name countingTable.table).unique hbare
  have hindex : [countedIndex.index] = indexes "t" :=
    (sortsStably_singleton Index.name countedIndex.index).unique (hindexes "t")
  rw [hts, ← htables, hindex]
  rfl

end Instance

end Catalog
end DdlSchema
