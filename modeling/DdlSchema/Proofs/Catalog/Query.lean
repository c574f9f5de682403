import DdlSchema.Proofs.Catalog.Load

/-! The questions that a catalog answers go together: which tables there are, whether there is one of a
name, what it is, what indexes it has, and what all tables are. -/
namespace DdlSchema
namespace Catalog

section Reading

variable {e : Entry} {t : Table} {missing : String}

/-- Indexes have statements of their own, so the statement of a table leaves it without any. -/
theorem indexes_of_readTable (h : e.readTable = .ok t) : t.indexes = [] := by
  obtain ⟨clause, hclause, h⟩ := Draft.bind_eq_ok h
  obtain ⟨cs, hparse, hclause⟩ := Draft.bind_eq_ok hclause
  cases hsql : Sqlite.parse e.sql with
  | error x =>
    rw [hsql] at hparse
    cases hparse
  | ok cs' =>
    rw [hsql] at hparse
    obtain rfl : cs' = cs := Except.ok.inj hparse
    obtain ⟨s, -, -, rfl⟩ := Sqlite.exists_definition_of_parse hsql
    obtain rfl : s.clause = clause := Except.ok.inj hclause
    cases s with
    | table t' =>
      obtain rfl : t'.table = t := Except.ok.inj h
      rfl
    | index i => cases h

/-- Whether an error is another than that a table is not there. -/
def IsNotMissing (e : ExplorerError) : Prop := ∀ name, e ≠ .tableNotFound name

theorem failsWith_clause (e : Entry) : FailsWith IsNotMissing e.clause := by
  unfold Entry.clause
  refine .bind (.mapError fun _ => nofun) fun cs => ?_
  split
  · exact .ok _
  · exact .error nofun

theorem failsWith_readTable (e : Entry) : FailsWith IsNotMissing e.readTable := by
  unfold Entry.readTable
  refine (failsWith_clause e).bind fun c => ?_
  cases c with
  | table t => exact .ok t
  | index i => exact .error nofun

theorem failsWith_readIndex (e : Entry) : FailsWith IsNotMissing e.readIndex := by
  unfold Entry.readIndex
  refine (failsWith_clause e).bind fun c => ?_
  cases c with
  | index i => exact .ok i
  | table t => exact .error nofun

end Reading

section Queries

variable {c : Catalog} {es : List Entry} (hes : c.entriesOf .table = .ok es)

theorem failsWith_entriesOf (c : Catalog) (kind : ObjectKind) :
    FailsWith IsNotMissing (c.entriesOf kind) := by
  unfold entriesOf
  exact .bind (.mapError fun _ => nofun) fun _ => .ok _

theorem failsWith_indexesOf (c : Catalog) (name : String) :
    FailsWith IsNotMissing (c.indexesOf name) := by
  unfold indexesOf indexEntries
  exact .bind ((failsWith_entriesOf c .index).bind fun _ => .ok _) fun _ => .mapM failsWith_readIndex

/-- Once a table is there, nothing is missing. -/
theorem failsWith_load (c : Catalog) (withIndexes : Bool) (e : Entry) :
    FailsWith IsNotMissing (c.load withIndexes e) := by
  unfold load
  refine (failsWith_readTable e).bind fun t => ?_
  cases withIndexes with
  | false => exact .ok t
  | true => exact (failsWith_indexesOf c e.name).bind fun _ => .ok _

/-- A table that there is has a first entry of its name. -/
theorem exists_find? {name : String} (h : name ∈ es.map Entry.name) :
    ∃ e, es.find? (·.name == name) = some e ∧ e.name = name := by
  obtain ⟨e, he, rfl⟩ := List.mem_map.1 h
  have hsome : (es.find? (·.name == e.name)).isSome = true :=
    List.find?_isSome.2 ⟨e, he, beq_self_eq_true e.name⟩
  obtain ⟨first, hfirst⟩ := Option.isSome_iff_exists.1 hsome
  exact ⟨first, hfirst, by simpa using List.find?_some hfirst⟩

include hes

theorem tableNames_eq : c.tableNames = .ok (es.map Entry.name) := by
  rw [tableNames, hes]
  rfl

theorem hasTable_eq (name : String) :
    c.hasTable name = .ok (decide (name ∈ es.map Entry.name)) := by
  rw [hasTable, hes]
  refine congrArg Except.ok ?_
  simp [List.any_eq]

theorem table_of_find? {withIndexes : Bool} {name : String} {e : Entry}
    (h : es.find? (·.name == name) = some e) :
    c.table withIndexes name = c.load withIndexes e := by
  rw [Catalog.table, hes]
  dsimp only [bind, Except.bind]
  rw [h]

theorem table_of_not_mem {withIndexes : Bool} {name : String} (h : name ∉ es.map Entry.name) :
    c.table withIndexes name = .error (.tableNotFound name) := by
  have hnone : es.find? (·.name == name) = none := by
    rw [List.find?_eq_none]
    rintro e he hname
    exact h (List.mem_map.2 ⟨e, he, beq_iff_eq.1 hname⟩)
  rw [Catalog.table, hes]
  dsimp only [bind, Except.bind]
  rw [hnone]

theorem indexes_eq (name : String) :
    c.indexes name =
      if name ∈ es.map Entry.name then c.indexesOf name else .error (.tableNotFound name) := by
  rw [Catalog.indexes, hasTable_eq hes]
  dsimp only [bind, Except.bind]
  simp only [decide_eq_true_eq]

theorem tables_eq (withIndexes : Bool) :
    c.tables withIndexes none = es.mapM (c.load withIndexes) := by
  rw [tables, hes]
  dsimp only [bind, Except.bind]
  cases es.mapM (c.load withIndexes) <;> rfl

/-- A table is missing where its name is, and then nothing else is. -/
theorem table_eq_tableNotFound_iff (withIndexes : Bool) (name missing : String) :
    c.table withIndexes name = .error (.tableNotFound missing) ↔
      missing = name ∧ name ∉ es.map Entry.name := by
  by_cases hname : name ∈ es.map Entry.name
  · obtain ⟨e, hfind, -⟩ := exists_find? hname
    rw [table_of_find? hes hfind]
    exact ⟨fun h => absurd rfl (failsWith_load c withIndexes e _ h missing),
      fun h => absurd hname h.2⟩
  · rw [table_of_not_mem hes hname]
    simp [hname, eq_comm]

theorem indexes_eq_tableNotFound_iff (name missing : String) :
    c.indexes name = .error (.tableNotFound missing) ↔
      missing = name ∧ name ∉ es.map Entry.name := by
  rw [indexes_eq hes]
  by_cases hname : name ∈ es.map Entry.name
  · rw [if_pos hname]
    exact ⟨fun h => absurd rfl (failsWith_indexesOf c name _ h missing),
      fun h => absurd hname h.2⟩
  · rw [if_neg hname]
    simp [hname, eq_comm]

/-- A table with its indexes is the table without them and the indexes. -/
theorem table_true_eq_ok {name : String} {t : Table} (h : c.table true name = .ok t) :
    c.indexes name = .ok t.indexes ∧ c.table false name = .ok { t with indexes := [] } := by
  have hname : name ∈ es.map Entry.name := by
    by_contra hnot
    rw [table_of_not_mem hes hnot] at h
    cases h
  obtain ⟨e, hfind, rfl⟩ := exists_find? hname
  rw [table_of_find? hes hfind] at h
  rw [indexes_eq hes, if_pos hname, table_of_find? hes hfind]
  obtain ⟨bare, hbare, -⟩ := Draft.bind_eq_ok h
  rw [load_true hbare] at h
  rw [load_false hbare]
  cases hindexes : c.indexesOf e.name with
  | error x =>
    rw [hindexes] at h
    cases h
  | ok indexes =>
    rw [hindexes] at h
    obtain rfl := Except.ok.inj h
    have hempty : bare.indexes = [] := indexes_of_readTable hbare
    exact ⟨rfl, by rw [← hempty]⟩

/-- All tables are those of their names where no two have one name. -/
theorem tables_of_nodup (hnodup : (es.map Entry.name).Nodup) (withIndexes : Bool) :
    c.tables withIndexes none = (es.map Entry.name).mapM (c.table withIndexes) := by
  rw [tables_eq hes, List.mapM_map]
  refine mapM_congr fun e he => ?_
  obtain ⟨first, hfind, hname⟩ := exists_find? (List.mem_map_of_mem (f := Entry.name) he)
  obtain rfl : first = e :=
    List.inj_on_of_nodup_map hnodup (List.mem_of_find?_eq_some hfind) he hname
  exact (table_of_find? hes hfind).symm

end Queries

/-- One list of names answers for all questions, and all of them fail alike where the entries cannot
be read. -/
theorem queries_agree (c : Catalog) :
    (∀ es, c.entries = .ok es → ∃ names, c.tableNames = .ok names ∧
      names.Pairwise (· ≤ ·) ∧
      (∀ name, c.hasTable name = .ok (decide (name ∈ names)) ∧
        (∀ withIndexes missing, c.table withIndexes name = .error (.tableNotFound missing) ↔
          missing = name ∧ name ∉ names) ∧
        (∀ missing, c.indexes name = .error (.tableNotFound missing) ↔
          missing = name ∧ name ∉ names) ∧
        ∀ t, c.table true name = .ok t →
          c.indexes name = .ok t.indexes ∧ c.table false name = .ok { t with indexes := [] }) ∧
      (names.Nodup → ∀ withIndexes,
        c.tables withIndexes none = names.mapM (c.table withIndexes))) ∧
    ∀ reason, c.entries = .error reason →
      c.tableNames = .error (.catalog reason) ∧
      (∀ name, c.hasTable name = .error (.catalog reason) ∧
        (∀ withIndexes, c.table withIndexes name = .error (.catalog reason)) ∧
        c.indexes name = .error (.catalog reason)) ∧
      ∀ withIndexes, c.tables withIndexes none = .error (.catalog reason) := by
  constructor
  · intro es hes
    obtain ⟨sorted, hsorted, hstable⟩ := exists_entriesOf hes .table
    refine ⟨sorted.map Entry.name, tableNames_eq hsorted, List.pairwise_map.2 hstable.ordered,
      fun name => ⟨hasTable_eq hsorted name, ?_, ?_, ?_⟩, tables_of_nodup hsorted⟩
    · exact fun withIndexes missing => table_eq_tableNotFound_iff hsorted withIndexes name missing
    · exact fun missing => indexes_eq_tableNotFound_iff hsorted name missing
    · exact fun t ht => table_true_eq_ok hsorted ht
  · intro reason hes
    have htables := entriesOf_eq_error hes .table
    have hhas (name : String) : c.hasTable name = .error (.catalog reason) := by
      rw [hasTable, htables]
      rfl
    refine ⟨?_, fun name => ⟨hhas name, fun withIndexes => ?_, ?_⟩, fun withIndexes => ?_⟩
    · rw [tableNames, htables]
      rfl
    · rw [Catalog.table, htables]
      rfl
    · rw [Catalog.indexes, hhas]
      rfl
    · rw [tables, htables]
      rfl

section Instance

open Command (indexText countedIndex parse_indexText parse_countingText)
open Script (countingText countingTable)

/-- A table with its index, and two tables without a statement, the last name first. -/
def mixedEntries : List Entry :=
  [.table "v" "", .table "u" "", .index "i;]" "t" indexText, .table "t" countingText]

/-- The error of a table that has no statement. -/
def unreadable (name : String) : ExplorerError :=
  .parse name (.parse (.unexpectedEnd ["'CREATE'"]))

theorem entriesOf_table_mixedEntries : entriesOf ⟨.ok mixedEntries⟩ .table =
    .ok [.table "t" countingText, .table "u" "", .table "v" ""] := by
  have hfilter : mixedEntries.filter (fun e => e.kind == .table && !e.isInternal) =
      [.table "v" "", .table "u" "", .table "t" countingText] := by decide
  have hsort : [Entry.table "v" "", .table "u" "", .table "t" countingText].mergeSort
      (fun a b => decide (a.name ≤ b.name)) =
        [.table "t" countingText, .table "u" "", .table "v" ""] := by
    simp [List.mergeSort, List.MergeSort.Internal.splitInTwo, Entry.table]
  exact congrArg Except.ok (hfilter ▸ hsort)

theorem entriesOf_index_mixedEntries :
    entriesOf ⟨.ok mixedEntries⟩ .index = .ok [.index "i;]" "t" indexText] :=
  congrArg Except.ok (List.mergeSort_singleton (Entry.index "i;]" "t" indexText))

theorem table_t_mixedEntries : table ⟨.ok mixedEntries⟩ true "t" =
    .ok { countingTable.table with indexes := [countedIndex.index] } := by
  have htable : (Entry.table "t" countingText).clause = .ok (.table countingTable.table) := by
    have hentry : Entry.ofClause countingText (.table countingTable.table) =
        .table "t" countingText := rfl
    rw [← hentry]
    exact clause_ofClause parse_countingText
  have hindex : (Entry.index "i;]" "t" indexText).clause = .ok (.index countedIndex.index) := by
    have hentry : Entry.ofClause indexText (.index countedIndex.index) =
        .index "i;]" "t" indexText := rfl
    rw [← hentry]
    exact clause_ofClause parse_indexText
  have hown : indexEntries ⟨.ok mixedEntries⟩ (Entry.table "t" countingText).name =
      .ok [.index "i;]" "t" indexText] := by
    rw [indexEntries, entriesOf_index_mixedEntries]
    decide
  have hfind : [Entry.table "t" countingText, .table "u" "", .table "v" ""].find? (·.name == "t") =
      some (.table "t" countingText) := by decide
  rw [table_of_find? entriesOf_table_mixedEntries hfind, load_true (readTable_of_clause htable),
    indexesOf_eq hown, mapM_eq_ok_iff.2 (.cons (readIndex_of_clause hindex) .nil)]
  rfl

theorem table_u_mixedEntries : table ⟨.ok mixedEntries⟩ true "u" = .error (unreadable "u") := by
  have hparse : Sqlite.parse "" = .error (.parse (.unexpectedEnd ["'CREATE'"])) := by
    rw [Sqlite.parse, Sqlite.parser_eq]
    decide +kernel
  have hfind : [Entry.table "t" countingText, .table "u" "", .table "v" ""].find? (·.name == "u") =
      some (.table "u" "") := by decide
  rw [table_of_find? entriesOf_table_mixedEntries hfind, load, Entry.readTable, Entry.clause,
    show (Entry.table "u" "").sql = "" from rfl, hparse]
  rfl

/-- Of the two tables that cannot be read, the first by name makes the error of all. -/
theorem queries_agree_mixedEntries :
    tableNames ⟨.ok mixedEntries⟩ = .ok ["t", "u", "v"] ∧
    hasTable ⟨.ok mixedEntries⟩ "w" = .ok false ∧
    table ⟨.ok mixedEntries⟩ true "w" = .error (.tableNotFound "w") ∧
    indexes ⟨.ok mixedEntries⟩ "w" = .error (.tableNotFound "w") ∧
    indexes ⟨.ok mixedEntries⟩ "t" = .ok [countedIndex.index] ∧
    table ⟨.ok mixedEntries⟩ false "t" = .ok countingTable.table ∧
    tables ⟨.ok mixedEntries⟩ true none = .error (unreadable "u") ∧
    tables ⟨.error "gone"⟩ true none = .error (.catalog "gone") := by
  obtain ⟨names, hnames, -, hname, htables⟩ :=
    (queries_agree ⟨.ok mixedEntries⟩).1 mixedEntries rfl
  obtain rfl : ["t", "u", "v"] = names :=
    Except.ok.inj ((tableNames_eq entriesOf_table_mixedEntries).symm.trans hnames)
  obtain ⟨hthere, hmissing, habsent, -⟩ := hname "w"
  have hw : "w" ∉ ["t", "u", "v"] := by decide
  obtain ⟨hindexes, hbare⟩ := (hname "t").2.2.2 _ table_t_mixedEntries
  have hall : ["t", "u", "v"].mapM (table ⟨.ok mixedEntries⟩ true) = .error (unreadable "u") := by
    rw [List.mapM_cons, table_t_mixedEntries, List.mapM_cons, table_u_mixedEntries]
    rfl
  exact ⟨hnames, hthere, (hmissing true "w").2 ⟨rfl, hw⟩, (habsent "w").2 ⟨rfl, hw⟩, hindexes, hbare,
    (htables (by decide) true).trans hall, ((queries_agree ⟨.error "gone"⟩).2 "gone" rfl).2.2 true⟩

end Instance

end Catalog
end DdlSchema
