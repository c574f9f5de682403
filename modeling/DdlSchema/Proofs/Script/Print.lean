import DdlSchema.Proofs.MapM
import DdlSchema.Proofs.Script.Text
import DdlSchema.Proofs.Sqlite.Writable

/-! The statements that a script prints spell the plainest statements of what they print. -/
namespace DdlSchema

open Sqlite (Symbol Keyword Listing ColumnDef ConstraintDef KeyDef TableDef IndexDef Definition
  DefaultValue TypeArguments IsArgument commaBefore nameSymbols)

namespace Script

variable {d : Delimiter}

section Names

theorem append_split {s t u : String} (h : s = t ++ u) (v : String) : s ++ v = t ++ (u ++ v) := by
  rw [h, String.append_assoc]

theorem commaSpace {s : String} {xs : List Symbol} (hs : Writes s xs) :
    Trails (", " ++ s) (.comma :: xs) := by
  rw [append_split (s := ", ") (t := ",") (u := " ") rfl]
  exact hs.space.writes.comma

/-- Items in brackets. -/
theorem writes_listing {α : Type} {text : α → String} {f : α → List Symbol} {l : Listing α}
    (h : ∀ a ∈ l.toList, Writes (text a) (f a)) :
    Trails ("(" ++ ", ".intercalate (l.toList.map text) ++ ")") (l.symbols f) := by
  have hitems := Writes.intercalate_map commaSpace h
  rw [String.append_assoc]
  exact (hitems.append Trails.closing).opening

theorem writes_names (hd : d = .brackets ∨ d = .doubleQuotes) {l : Listing String}
    (hl : ∀ n ∈ l.toList, n ≠ "") :
    Trails ("(" ++ nameList d l.toList ++ ")") (l.symbols nameSymbols) :=
  writes_listing fun n hn => writes_quote hd (hl n hn)

end Names

section Columns

theorem toString_argument {n : Int} (hn : IsArgument n) : toString (Sqlite.argument n) = toString n := by
  obtain ⟨hlow, hhigh⟩ := hn
  have hvalue : ((Sqlite.argument n).toNat : Int) = n := by
    rw [Sqlite.argument, UInt32.toNat_ofNat_of_lt']
    · omega
    · show n.toNat < 2 ^ 32
      omega
  calc toString (Sqlite.argument n)
    _ = toString ((Sqlite.argument n).toNat : Int) := rfl
    _ = toString n := by rw [hvalue]

theorem isInt64_of_isArgument {n : Int} (hn : IsArgument n) : Lexer.IsInt64 n := by
  obtain ⟨hlow, hhigh⟩ := hn
  have hlimit : Lexer.int64Limit = 2 ^ 63 := rfl
  unfold Lexer.IsInt64
  omega

theorem writes_type (hd : d = .brackets ∨ d = .doubleQuotes) {c : ColumnDef} (htype : c.type ≠ "")
    (harguments : ∀ n ∈ c.arguments.values, IsArgument n) :
    Writes { c.typeDef with name := typeName d c.type }.text
      (.name c.type :: c.arguments.symbols) := by
  have hname := writes_typeName hd htype
  cases hargs : c.arguments with
  | none =>
    simp only [ColumnDef.typeDef, hargs, TypeDef.text]
    exact hname
  | size n =>
    rw [hargs] at harguments
    have hn : IsArgument n := harguments n List.mem_cons_self
    have hsize := (writes_integer (isInt64_of_isArgument hn)).append Trails.closing
    simp only [ColumnDef.typeDef, hargs, TypeDef.text, toString_argument hn, String.append_assoc]
    exact hname.append hsize.opening
  | precision n scale =>
    rw [hargs] at harguments
    have hn : IsArgument n := harguments n List.mem_cons_self
    have hscale : IsArgument scale := harguments scale (List.mem_cons_of_mem n List.mem_cons_self)
    have hlast := (writes_integer (isInt64_of_isArgument hscale)).append Trails.closing
    have hboth := (writes_integer (isInt64_of_isArgument hn)).append (commaSpace hlast)
    simp only [ColumnDef.typeDef, hargs, TypeDef.text, toString_argument hn,
      toString_argument hscale, String.append_assoc]
    exact hname.append hboth.opening

theorem writes_default {value : DefaultValue} (hvalue : value.symbol.IsWritable) :
    Writes value.text [value.symbol] := by
  cases value with
  | null => exact writes_keyword .null
  | integer n => exact writes_integer hvalue
  | string s => exact writes_quoteString s
  | current m => exact writes_keyword m.keyword

theorem trails_attributes (isNullable isKey : Bool) {value : Option DefaultValue}
    (hvalue : ∀ v ∈ value, v.symbol.IsWritable) :
    Trails ((if isNullable then " NULL" else " NOT NULL") ++
        (if isKey then " PRIMARY KEY AUTOINCREMENT" else "") ++
        (value.map DefaultValue.text).elim "" (" DEFAULT " ++ ·))
      ((Sqlite.plainAttributes isNullable isKey value).flatMap Sqlite.Attribute.symbols) := by
  have hnull : Trails (if isNullable then " NULL" else " NOT NULL")
      (Sqlite.Attribute.symbols (if isNullable then .null else .notNull)) := by
    cases isNullable with
    | true => exact trails_keywords [.null]
    | false => exact trails_keywords [.not, .null]
  have hkey : Trails (if isKey then " PRIMARY KEY AUTOINCREMENT" else "")
      ((if isKey then [Sqlite.Attribute.primaryKey true] else []).flatMap
        Sqlite.Attribute.symbols) := by
    cases isKey with
    | true => exact trails_keywords [.primary, .key, .autoincrement]
    | false => exact Trails.empty
  have hdefault : Trails ((value.map DefaultValue.text).elim "" (" DEFAULT " ++ ·))
      ((value.toList.map Sqlite.Attribute.default).flatMap Sqlite.Attribute.symbols) := by
    cases value with
    | none => exact Trails.empty
    | some v =>
      have hword := trails_keywords [.default]
      have hv := (writes_default (hvalue v rfl)).space
      have htext : (some v.text).elim "" (" DEFAULT " ++ ·) = " DEFAULT" ++ (" " ++ v.text) :=
        append_split (s := " DEFAULT ") (t := " DEFAULT") (u := " ") rfl v.text
      rw [Option.map_some, htext]
      exact hword.append hv
  rw [Sqlite.plainAttributes, List.flatMap_cons, List.flatMap_append, String.append_assoc]
  exact hnull.append (hkey.append hdefault)

theorem column_eq_ok (hd : d = .brackets ∨ d = .doubleQuotes) (t : Table) (isKey : Bool)
    {c : ColumnDef} (hc : c.IsWritable) :
    ∃ line, column d t isKey c.column = .ok line ∧ Writes line (c.rewritten isKey).symbols := by
  have htype := writes_type hd hc.type_ne hc.arguments
  have hattributes := trails_attributes c.column.isNullable isKey hc.default
  have hname : c.column.type.name = c.type := ColumnDef.name_typeDef c
  have hempty : c.type.isEmpty = false := by simpa using hc.type_ne
  rw [column, hname, hempty]
  refine ⟨_, rfl, ?_⟩
  rw [Sqlite.ColumnDef.defaultText_column]
  simp only [String.append_assoc] at hattributes ⊢
  exact (writes_quote hd hc.name_ne).append (htype.append hattributes).space

end Columns

section Constraints

variable (hd : d = .brackets ∨ d = .doubleQuotes)

include hd

/-- A key with the name of its constraint in front. -/
theorem writes_constraint {name : Option String} (hname : ∀ n ∈ name, n ≠ "") {key : KeyDef}
    {text : String} (htext : Writes text key.symbols) :
    Writes (constraintName d name ++ text) (ConstraintDef.mk name key).symbols := by
  cases name with
  | none =>
    rw [constraintName, Option.elim_none, String.empty_append]
    exact htext
  | some n =>
    have hquote := (writes_quote hd (hname n rfl)).append htext.space
    rw [constraintName, Option.elim_some, String.append_assoc, String.append_assoc,
      append_split (s := "CONSTRAINT ") (t := "CONSTRAINT") (u := " ") rfl]
    exact (writes_keyword .constraint).append hquote.space

theorem primaryKey_eq_ok (t : Table) {name : Option String} {names : Listing String}
    (hname : ∀ n ∈ name, n ≠ "") (hnames : ∀ n ∈ names.toList, n ≠ "") :
    ∃ line, primaryKey d t ⟨name, names.toList⟩ = .ok line ∧
      Writes line (ConstraintDef.mk name (.ofNames names)).symbols := by
  have hkey : Writes ("PRIMARY KEY(" ++ nameList d names.toList ++ ")")
      (KeyDef.ofNames names).symbols := by
    have hlisting := (writes_keyword .key).append (writes_names hd hnames)
    rw [String.append_assoc, append_split (s := "PRIMARY KEY(") (t := "PRIMARY") (u := " KEY(") rfl,
      append_split (s := " KEY(") (t := " ") (u := "KEY(") rfl,
      append_split (s := "KEY(") (t := "KEY") (u := "(") rfl, KeyDef.symbols_ofNames]
    rw [String.append_assoc] at hlisting
    exact (writes_keyword .primary).append hlisting.space
  refine ⟨_, rfl, ?_⟩
  rw [String.append_assoc, String.append_assoc]
  rw [String.append_assoc] at hkey
  exact writes_constraint hd hname hkey

theorem foreignKey_eq_ok (t : Table) {name : Option String} {columns referenced : Listing String}
    {table : String} (hname : ∀ n ∈ name, n ≠ "") (hcolumns : ∀ n ∈ columns.toList, n ≠ "")
    (htable : table ≠ "") (hreferenced : ∀ n ∈ referenced.toList, n ≠ "")
    (hlength : columns.toList.length = referenced.toList.length) :
    ∃ line, foreignKey d t ⟨name, columns.toList, table, referenced.toList⟩ = .ok line ∧
      Writes line (ConstraintDef.mk name (.foreign columns table referenced)).symbols := by
  have hkey : Writes ("FOREIGN KEY(" ++ nameList d columns.toList ++ ") REFERENCES " ++
      quote d table ++ "(" ++ nameList d referenced.toList ++ ")")
      (KeyDef.foreign columns table referenced).symbols := by
    have hlast := (writes_quote hd htable).append (writes_names hd hreferenced)
    have hreferences := ((writes_keyword .references).append hlast.space).space
    have hlisting := (writes_keyword .key).append ((writes_names hd hcolumns).append hreferences)
    simp only [String.append_assoc] at hlisting ⊢
    rw [append_split (s := "FOREIGN KEY(") (t := "FOREIGN") (u := " KEY(") rfl,
      append_split (s := " KEY(") (t := " ") (u := "KEY(") rfl,
      append_split (s := "KEY(") (t := "KEY") (u := "(") rfl,
      append_split (s := ") REFERENCES ") (t := ")") (u := " REFERENCES ") rfl,
      append_split (s := " REFERENCES ") (t := " ") (u := "REFERENCES ") rfl,
      append_split (s := "REFERENCES ") (t := "REFERENCES") (u := " ") rfl]
    exact (writes_keyword .foreign).append hlisting.space
  have hmismatch : ¬columns.toList.length ≠ referenced.toList.length := not_not_intro hlength
  have hline : foreignKey d t ⟨name, columns.toList, table, referenced.toList⟩ =
      .ok (constraintName d name ++ ("FOREIGN KEY(" ++ nameList d columns.toList ++
        ") REFERENCES " ++ quote d table ++ "(" ++ nameList d referenced.toList ++ ")")) := by
    rw [foreignKey, if_neg hmismatch]
    simp only [String.append_assoc]
    rfl
  exact ⟨_, hline, writes_constraint hd hname hkey⟩

end Constraints

section Indexes

theorem writes_indexColumn (hd : d = .brackets ∨ d = .doubleQuotes) {c : IndexColumn}
    (hc : c.name ≠ "") :
    Writes (quote d c.name ++ " " ++ c.direction.keyword)
      [.name c.name, .keyword (Sqlite.directionKeyword c.direction)] := by
  have hdirection : Writes c.direction.keyword [.keyword (Sqlite.directionKeyword c.direction)] := by
    cases c.direction with
    | ascending => exact writes_keyword .asc
    | descending => exact writes_keyword .desc
  rw [String.append_assoc]
  exact (writes_quote hd hc).append hdirection.space

/-- What an index statement prints reads as the statement with all directions. -/
theorem createIndex_eq_ok (hd : d = .brackets ∨ d = .doubleQuotes) {i : IndexDef}
    (hi : i.IsWritable) :
    ∃ text, createIndex d i.index = .ok text ∧ Writes text i.rewritten.symbols := by
  have hlisting : Trails ("(" ++ ", ".intercalate (i.columns.toList.map fun n =>
      quote d n.indexColumn.name ++ " " ++ n.indexColumn.direction.keyword) ++ ")")
      (i.rewritten.columns.symbols Sqlite.OrderedName.symbols) := by
    rw [IndexDef.rewritten, Listing.symbols_map]
    exact writes_listing fun n hn => writes_indexColumn hd (hi.columns n hn)
  have hon := ((writes_keyword .onWord).append ((writes_quote hd hi.table_ne).append hlisting).space).space
  have hindex := (writes_keyword .index).append ((writes_quote hd hi.name_ne).append hon).space
  have hunique : Writes ((if i.isUnique then "UNIQUE " else "") ++ "INDEX " ++ quote d i.name ++
      " ON " ++ quote d i.table ++ "(" ++ ", ".intercalate (i.columns.toList.map fun n =>
        quote d n.indexColumn.name ++ " " ++ n.indexColumn.direction.keyword) ++ ")")
      ((if i.isUnique then [.keyword .unique] else []) ++ .keyword .index :: .name i.name ::
        .keyword .onWord :: .name i.table ::
          i.rewritten.columns.symbols Sqlite.OrderedName.symbols) := by
    simp only [String.append_assoc] at hindex ⊢
    rw [append_split (s := "INDEX ") (t := "INDEX") (u := " ") rfl,
      append_split (s := " ON ") (t := " ") (u := "ON ") rfl,
      append_split (s := "ON ") (t := "ON") (u := " ") rfl]
    cases i.isUnique with
    | false =>
      rw [if_neg Bool.false_ne_true, String.empty_append]
      exact hindex
    | true =>
      rw [if_pos rfl, append_split (s := "UNIQUE ") (t := "UNIQUE") (u := " ") rfl]
      exact (writes_keyword .unique).append hindex.space
  have hcreate := (writes_keyword .create).append hunique.space
  refine ⟨_, rfl, ?_⟩
  simp only [String.append_assoc] at hcreate ⊢
  rw [append_split (s := "CREATE ") (t := "CREATE") (u := " ") rfl]
  have hcolumns : i.index.columns = i.columns.toList.map Sqlite.OrderedName.indexColumn := rfl
  rw [hcolumns, List.map_map]
  exact hcreate

end Indexes

section Tables

theorem identityColumn_table {t : TableDef} (hvalid : (Definition.table t).IsValid) :
    identityColumn t.table = .ok t.identity? := by
  have hcounted : (fun c : ColumnDef => c.column.identity.isSome) = ColumnDef.isCounted := by
    funext c
    exact c.isSome_identity_column
  have hcolumns : t.table.columns.find? (·.identity.isSome) =
      (t.columns.toList.find? ColumnDef.isCounted).map ColumnDef.column := by
    have htable : t.table.columns = t.columns.toList.map ColumnDef.column := rfl
    rw [htable, List.find?_map, ← hcounted]
    rfl
  rw [identityColumn, hcolumns, TableDef.identity?]
  cases hfind : t.columns.toList.find? ColumnDef.isCounted with
  | none => rfl
  | some c =>
    have hid : t.identity? = some c.name := by rw [TableDef.identity?, hfind]; rfl
    rw [TableDef.primaryKey_table_of_identity? hvalid hid]
    exact if_pos rfl

/-- The line of a primary key that stands on its own. -/
def keyLines (d : Delimiter) (t : Table) (identity : Option String) :
    Except ScriptError (List String) :=
  match t.primaryKey, identity with
  | some k, none => (primaryKey d t k).map ([·])
  | _, _ => .ok []

/-- The lines of the primary key come before those of the foreign keys. -/
theorem constraints_eq_bind (d : Delimiter) (t : Table) (identity : Option String) :
    constraints d t identity = (do
      let keys ← keyLines d t identity
      let lines ← t.foreignKeys.mapM (foreignKey d t)
      .ok (keys ++ lines)) := by
  unfold constraints keyLines
  cases t.primaryKey <;> cases identity <;> rfl

theorem constraints_of_keyLines {t : Table} {identity : Option String} {keys : List String}
    (h : keyLines d t identity = .ok keys) :
    constraints d t identity = (t.foreignKeys.mapM (foreignKey d t)).map (keys ++ ·) := by
  rw [constraints_eq_bind, h]
  rfl

theorem createTable_eq_bind {t : Table} (hne : t.columns.isEmpty = false) (d : Delimiter)
    (withConstraints : Bool) : createTable d withConstraints t = (do
      let identity ← identityColumn t
      let columns ← t.columns.mapM fun c => column d t (identity == some c.name) c
      let lines ← (if withConstraints then constraints d t identity else .ok [] :)
      .ok ("CREATE TABLE " ++ quote d t.name ++ "(\n" ++
        ",\n".intercalate ((columns ++ lines).map ("    " ++ ·)) ++ ")")) := by
  unfold createTable
  rw [hne]
  cases withConstraints <;> rfl

theorem createTable_of_lines {t : Table} {withConstraints : Bool} {identity : Option String}
    {columns lines : List String} (hne : t.columns.isEmpty = false)
    (hidentity : identityColumn t = .ok identity)
    (hcolumns : (t.columns.mapM fun c => column d t (identity == some c.name) c) = .ok columns)
    (hlines : (if withConstraints then constraints d t identity else .ok []) = .ok lines) :
    createTable d withConstraints t = .ok ("CREATE TABLE " ++ quote d t.name ++ "(\n" ++
      ",\n".intercalate ((columns ++ lines).map ("    " ++ ·)) ++ ")") := by
  rw [createTable_eq_bind hne, hidentity]
  change (t.columns.mapM fun c => column d t (identity == some c.name) c) >>= _ = _
  rw [hcolumns]
  change (if withConstraints then constraints d t identity else .ok []) >>= _ = _
  rw [hlines]
  rfl

/-- A printed table is its columns and then its constraints, one a line. -/
theorem exists_lines_of_createTable {t : Table} {withConstraints : Bool} {text : String}
    (h : createTable d withConstraints t = .ok text) : ∃ identity columns lines,
      identityColumn t = .ok identity ∧
      (t.columns.mapM fun c => column d t (identity == some c.name) c) = .ok columns ∧
      (if withConstraints then constraints d t identity else .ok []) = .ok lines ∧
      text = "CREATE TABLE " ++ quote d t.name ++ "(\n" ++
        ",\n".intercalate ((columns ++ lines).map ("    " ++ ·)) ++ ")" := by
  cases hempty : t.columns.isEmpty with
  | true =>
    unfold createTable at h
    rw [hempty] at h
    cases h
  | false =>
    rw [createTable_eq_bind hempty] at h
    obtain ⟨identity, hidentity, h⟩ := Draft.bind_eq_ok h
    obtain ⟨columns, hcolumns, h⟩ := Draft.bind_eq_ok h
    obtain ⟨lines, hlines, h⟩ := Draft.bind_eq_ok h
    exact ⟨identity, columns, lines, hidentity, hcolumns, hlines, (Except.ok.inj h).symm⟩

variable (hd : d = .brackets ∨ d = .doubleQuotes) {t : TableDef} (ht : t.IsWritable)

include hd ht

theorem columns_eq_ok (withConstraints : Bool) :
    ∃ lines, (t.table.columns.mapM fun c => column d t.table (t.identity? == some c.name) c) =
      .ok lines ∧
      List.Forall₂ Writes lines
        ((t.rewritten withConstraints).columns.toList.map ColumnDef.symbols) := by
  have htable : t.table.columns = t.columns.toList.map ColumnDef.column := rfl
  rw [htable, List.mapM_map, TableDef.rewritten, Listing.toList_map, List.map_map]
  exact mapM_eq_ok fun c hc => column_eq_ok hd t.table (t.identity? == some c.name) (ht.columns c hc)

theorem keyLines_eq_ok : ∃ lines, keyLines d t.table t.identity? = .ok lines ∧
    List.Forall₂ Writes lines
      ((if t.identity?.isNone then t.keyConstraint?.toList else []).map ConstraintDef.symbols) := by
  unfold keyLines
  cases hid : t.identity? with
  | some n =>
    refine ⟨[], ?_, .nil⟩
    cases t.table.primaryKey <;> rfl
  | none =>
    rw [TableDef.primaryKey_table]
    cases hkey : t.keyConstraint? with
    | none => exact ⟨[], rfl, .nil⟩
    | some c =>
      obtain ⟨name, names, rfl, hname, hnames⟩ := ht.keyConstraint? hkey
      obtain ⟨line, hline, hwrites⟩ := primaryKey_eq_ok hd t.table hname hnames
      refine ⟨[line], ?_, .cons hwrites .nil⟩
      rw [Option.bind_some, Sqlite.primaryKey?_ofNames]
      dsimp only
      rw [hline]
      rfl

omit ht in
theorem foreignKeys_eq_ok {cs : List ConstraintDef} (hcs : ∀ c ∈ cs, ∀ n ∈ c.names, n ≠ "")
    (hlength : ∀ k ∈ cs.filterMap ConstraintDef.foreignKey?,
      k.columns.length = k.referenced.length) :
    ∃ lines, (cs.filterMap ConstraintDef.foreignKey?).mapM (foreignKey d t.table) = .ok lines ∧
      List.Forall₂ Writes lines
        ((cs.filter (!·.key.isPrimary)).map ConstraintDef.symbols) := by
  induction cs with
  | nil => exact ⟨[], rfl, .nil⟩
  | cons c cs ih =>
    have hrest := fun c' hc' => hcs c' (List.mem_cons_of_mem c hc')
    have hnames := hcs c List.mem_cons_self
    obtain ⟨name, columns | ⟨columns, table, referenced⟩⟩ := c
    · exact ih hrest hlength
    · obtain ⟨lines, hlines, hwrites⟩ := ih hrest fun k hk => hlength k (List.mem_cons_of_mem _ hk)
      have hkey (n : String) (hn : n ∈ (KeyDef.foreign columns table referenced).names) : n ≠ "" :=
        hnames n (List.mem_append_right _ hn)
      obtain ⟨line, hline, hwrite⟩ := foreignKey_eq_ok hd t.table
        (fun n (hn : n ∈ name) => hnames n (List.mem_append_left _ (Option.mem_toList.2 hn)))
        (fun n hn => hkey n (List.mem_append_left _ hn))
        (hkey table (List.mem_append_right _ List.mem_cons_self))
        (fun n hn => hkey n (List.mem_append_right _ (List.mem_cons_of_mem _ hn)))
        (hlength _ List.mem_cons_self)
      have hforeign : ((⟨name, .foreign columns table referenced⟩ : ConstraintDef) :: cs).filterMap
          ConstraintDef.foreignKey? = ⟨name, columns.toList, table, referenced.toList⟩ ::
            cs.filterMap ConstraintDef.foreignKey? := rfl
      refine ⟨line :: lines, ?_, .cons hwrite hwrites⟩
      rw [hforeign, List.mapM_cons, hline, hlines]
      rfl

theorem constraints_eq_ok
    (hlength : ∀ k ∈ t.table.foreignKeys, k.columns.length = k.referenced.length) :
    ∃ lines, constraints d t.table t.identity? = .ok lines ∧
      List.Forall₂ Writes lines ((t.rewritten true).constraints.map ConstraintDef.symbols) := by
  obtain ⟨keys, hkeys, hkeysWrite⟩ := keyLines_eq_ok hd ht
  obtain ⟨lines, hlines, hlinesWrite⟩ := foreignKeys_eq_ok (t := t) hd ht.constraints hlength
  refine ⟨keys ++ lines, ?_, ?_⟩
  · have htable : t.table.foreignKeys = t.constraints.filterMap ConstraintDef.foreignKey? := rfl
    rw [constraints_of_keyLines hkeys, htable, hlines]
    rfl
  · rw [TableDef.rewritten, if_pos rfl, List.map_append]
    exact List.rel_append hkeysWrite hlinesWrite

theorem length_eq_of_constraints {lines : List String}
    (h : constraints d t.table t.identity? = .ok lines) :
    ∀ k ∈ t.table.foreignKeys, k.columns.length = k.referenced.length := by
  obtain ⟨keys, hkeys, -⟩ := keyLines_eq_ok hd ht
  rw [constraints_of_keyLines hkeys] at h
  intro k hk
  cases hm : t.table.foreignKeys.mapM (foreignKey d t.table) with
  | error e => rw [hm] at h; cases h
  | ok bs =>
    obtain ⟨line, hline⟩ := exists_of_mapM_eq_ok hm k hk
    unfold foreignKey at hline
    split at hline
    · cases hline
    · split at hline
      · cases hline
      · rename_i hlength
        exact not_not.1 hlength

/-- The error of a table that cannot be printed with its constraints. -/
theorem constraints_eq_error {e : ScriptError} (h : constraints d t.table t.identity? = .error e) :
    ∃ k ∈ t.table.foreignKeys, k.columns.length ≠ k.referenced.length ∧
      e = .foreignKeyColumnMismatch t.name k.name k.columns.length k.referenced.length := by
  obtain ⟨keys, hkeys, -⟩ := keyLines_eq_ok hd ht
  rw [constraints_of_keyLines hkeys] at h
  have hlines : t.table.foreignKeys.mapM (foreignKey d t.table) = .error e := by
    cases hm : t.table.foreignKeys.mapM (foreignKey d t.table) with
    | ok lines => rw [hm] at h; cases h
    | error e' => rw [hm] at h; exact congrArg Except.error (Except.error.inj h)
  obtain ⟨k, hk, he⟩ := mapM_eq_error hlines
  refine ⟨k, hk, ?_⟩
  obtain ⟨c, -, hc⟩ := List.mem_filterMap.1 hk
  obtain ⟨name, columns | ⟨columns, table, referenced⟩⟩ := c
  · cases hc
  · obtain rfl := Option.some.inj hc
    rw [foreignKey] at he
    by_cases hlength : columns.toList.length ≠ referenced.toList.length
    · exact ⟨hlength, (Except.error.inj ((if_pos hlength).symm.trans he)).symm⟩
    · exact absurd ((if_neg hlength).symm.trans he) nofun

end Tables

section Tables

variable {s : String} {xs : List Symbol}

theorem commaNewline (hs : Writes s xs) : Trails (",\n" ++ s) (.comma :: xs) := by
  rw [append_split (s := ",\n") (t := ",") (u := "\n") rfl]
  exact (hs.blank (b := '\n') (by decide)).writes.comma

theorem writes_indented (hs : Writes s xs) : Writes ("    " ++ s) xs := by
  rw [append_split (s := "    ") (t := "  ") (u := "  ") rfl,
    append_split (s := "  ") (t := " ") (u := " ") rfl,
    append_split (s := "  ") (t := " ") (u := " ") rfl]
  exact hs.space.writes.space.writes.space.writes.space.writes

variable (hd : d = .brackets ∨ d = .doubleQuotes) {t : TableDef}

include hd

theorem writes_createTable (hname : t.name ≠ "") (hif : t.ifNotExists = false)
    {columns constraints : List String}
    (hcolumns : List.Forall₂ Writes columns (t.columns.toList.map ColumnDef.symbols))
    (hconstraints : List.Forall₂ Writes constraints (t.constraints.map ConstraintDef.symbols)) :
    Writes ("CREATE TABLE " ++ quote d t.name ++ "(\n" ++
      ",\n".intercalate ((columns ++ constraints).map ("    " ++ ·)) ++ ")") t.symbols := by
  cases hcolumns with
  | @cons line _ lines _ hline hlines =>
    have hmore : List.Forall₂ Writes ((lines ++ constraints).map ("    " ++ ·))
        (t.columns.more.map ColumnDef.symbols ++ t.constraints.map ConstraintDef.symbols) :=
      List.forall₂_map_left_iff.2 ((List.rel_append hlines hconstraints).imp fun _ _ => writes_indented)
    have hbody := Writes.intercalate commaNewline (writes_indented hline) hmore
    have hopen := ((hbody.append Trails.closing).blank (b := '\n') (by decide)).writes.opening
    have htable := ((writes_keyword .table).append ((writes_quote hd hname).append hopen).space).space
    have hcreate := (writes_keyword .create).append htable
    have hsymbols : t.symbols = [.keyword .create] ++ ([.keyword .table] ++ ([.name t.name] ++
        .opening :: (t.columns.first.symbols ++ commaBefore id (t.columns.more.map ColumnDef.symbols ++
          t.constraints.map ConstraintDef.symbols) ++ [.closing]))) := by
      simp [TableDef.symbols, hif, Sqlite.ifNotExistsSymbols, commaBefore, List.flatMap_map]
    rw [hsymbols]
    simp only [String.append_assoc] at hcreate ⊢
    rw [append_split (s := "CREATE TABLE ") (t := "CREATE") (u := " TABLE ") rfl,
      append_split (s := " TABLE ") (t := " ") (u := "TABLE ") rfl,
      append_split (s := "TABLE ") (t := "TABLE") (u := " ") rfl,
      append_split (s := "(\n") (t := "(") (u := "\n") rfl]
    exact hcreate

variable (ht : t.IsWritable) (hvalid : (Definition.table t).IsValid)

include ht hvalid

theorem createTable_eq (withConstraints : Bool) : ∃ columns,
    List.Forall₂ Writes columns ((t.rewritten withConstraints).columns.toList.map ColumnDef.symbols) ∧
    createTable d withConstraints t.table =
      (if withConstraints then constraints d t.table t.identity? else .ok []).map fun constraints =>
        "CREATE TABLE " ++ quote d t.name ++ "(\n" ++
          ",\n".intercalate ((columns ++ constraints).map ("    " ++ ·)) ++ ")" := by
  obtain ⟨columns, hcolumns, hwrites⟩ := columns_eq_ok hd ht withConstraints
  refine ⟨columns, hwrites, ?_⟩
  rw [createTable_eq_bind rfl, identityColumn_table hvalid]
  change (t.table.columns.mapM fun c => column d t.table (t.identity? == some c.name) c) >>= _ = _
  rw [hcolumns]
  cases withConstraints with
  | false => rfl
  | true => cases constraints d t.table t.identity? <;> rfl

/-- A table without its constraints can always be printed. -/
theorem createTable_false_eq_ok : ∃ text, createTable d false t.table = .ok text ∧
    Writes text (t.rewritten false).symbols := by
  obtain ⟨columns, hcolumns, htext⟩ := createTable_eq hd ht hvalid false
  exact ⟨_, htext, writes_createTable (t := t.rewritten false) hd ht.name_ne rfl hcolumns .nil⟩

theorem createTable_true_eq_ok
    (hlength : ∀ k ∈ t.table.foreignKeys, k.columns.length = k.referenced.length) :
    ∃ text, createTable d true t.table = .ok text ∧ Writes text (t.rewritten true).symbols := by
  obtain ⟨columns, hcolumns, htext⟩ := createTable_eq hd ht hvalid true
  obtain ⟨constraints, hconstraints, hwrites⟩ := constraints_eq_ok hd ht hlength
  rw [if_pos rfl, hconstraints] at htext
  exact ⟨_, htext,
    writes_createTable (t := t.rewritten true) hd ht.name_ne rfl hcolumns hwrites⟩

theorem length_eq_of_createTable {text : String} (h : createTable d true t.table = .ok text) :
    ∀ k ∈ t.table.foreignKeys, k.columns.length = k.referenced.length := by
  obtain ⟨columns, -, htext⟩ := createTable_eq hd ht hvalid true
  rw [if_pos rfl] at htext
  cases hconstraints : constraints d t.table t.identity? with
  | ok lines => exact length_eq_of_constraints hd ht hconstraints
  | error e =>
    rw [hconstraints] at htext
    cases htext.symm.trans h

theorem createTable_true_eq_error {e : ScriptError} (h : createTable d true t.table = .error e) :
    ∃ k ∈ t.table.foreignKeys, k.columns.length ≠ k.referenced.length ∧
      e = .foreignKeyColumnMismatch t.name k.name k.columns.length k.referenced.length := by
  obtain ⟨columns, -, htext⟩ := createTable_eq hd ht hvalid true
  rw [if_pos rfl] at htext
  cases hconstraints : constraints d t.table t.identity? with
  | ok lines =>
    rw [hconstraints] at htext
    rw [htext] at h
    cases h
  | error e' =>
    rw [hconstraints] at htext
    obtain rfl : e' = e := Except.error.inj (htext.symm.trans h)
    exact constraints_eq_error hd ht hconstraints

end Tables

end Script
end DdlSchema
