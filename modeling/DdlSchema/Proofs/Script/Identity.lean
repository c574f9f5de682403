import DdlSchema.Proofs.Script.Print

/-! Which columns of a printed table carry the clause of an identity, and which tables are refused for
their identities. Only the first column with an identity is looked at, and its name decides for all. -/
namespace DdlSchema

namespace Table

/-- The first column with an identity. -/
def firstIdentity? (t : Table) : Option Column := t.columns.find? (·.identity.isSome)

/-- Whether the primary key is one column of some name. -/
def IsOnlyKey (t : Table) (name : String) : Prop := t.primaryKey.map (·.columns) = some [name]

instance (t : Table) (name : String) : Decidable (t.IsOnlyKey name) :=
  inferInstanceAs (Decidable (_ = _))

/-- Whether the columns with an identity, if there are any, are those of one name. -/
def IdentityIsByName (t : Table) : Prop :=
  ∀ c ∈ t.columns, c.identity.isSome = true → ∀ other ∈ t.columns,
    (other.identity.isSome = true ↔ other.name = c.name)

variable {t : Table} {c : Column}

theorem firstIdentity?_eq_some (h : t.firstIdentity? = some c) :
    c ∈ t.columns ∧ c.identity.isSome = true :=
  ⟨List.mem_of_find?_eq_some h, List.find?_some (p := fun c : Column => c.identity.isSome) h⟩

theorem firstIdentity?_eq_none (h : t.firstIdentity? = none) :
    ∀ c ∈ t.columns, ¬c.identity.isSome = true :=
  List.find?_eq_none.1 h

theorem isEmpty_columns_of_firstIdentity? (h : t.firstIdentity? = some c) : t.columns.isEmpty = false :=
  List.isEmpty_eq_false_iff.2 (List.ne_nil_of_mem (firstIdentity?_eq_some h).1)

/-- The name of the first column with an identity tells apart which columns have one, where that can be
told by a name at all. -/
theorem forall_firstIdentity?_iff :
    (∀ c ∈ t.columns, (∃ first ∈ t.firstIdentity?, c.name = first.name) ↔ c.identity.isSome = true) ↔
      t.IdentityIsByName := by
  cases hfirst : t.firstIdentity? with
  | none =>
    have hnone := firstIdentity?_eq_none hfirst
    exact iff_of_true (fun c hc => iff_of_false (fun ⟨_, hmem, _⟩ => nomatch hmem) (hnone c hc))
      fun c hc hsome => absurd hsome (hnone c hc)
  | some first =>
    obtain ⟨hmem, hsome⟩ := firstIdentity?_eq_some hfirst
    have hname (c : Column) : (∃ k ∈ some first, c.name = k.name) ↔ c.name = first.name := by simp
    simp only [hname]
    constructor
    · intro h c hc hidentity other hother
      rw [← h other hother, (h c hc).2 hidentity]
    · exact fun h c hc => (h first hmem hsome c hc).symm

end Table

namespace Script

variable {d : Delimiter} {t : Table}

/-- Whether a line of a column carries the clause of an identity, with which the line is that of a column
without a key. -/
def CarriesKey (d : Delimiter) (t : Table) (c : Column) (line : String) : Prop :=
  ∃ front back, column d t false c = .ok (front ++ back) ∧
    line = front ++ " PRIMARY KEY AUTOINCREMENT" ++ back

/-- Whether an error blames the identity of a column. -/
def BlamesIdentity (e : ScriptError) : Prop := ∃ table column, e = .identityWithoutPrimaryKey table column

section Lines

/-- The clause of an identity is put between what else stands in the line of a column. -/
theorem exists_column_eq {isKey : Bool} {c : Column} {line : String} (h : column d t isKey c = .ok line) :
    ∃ front back, ∀ isKey, column d t isKey c =
      .ok (front ++ (if isKey then " PRIMARY KEY AUTOINCREMENT" else "") ++ back) := by
  unfold column at h
  split at h
  · cases h
  · let type := { c.type with name := typeName d c.type.name }
    refine ⟨quote d c.name ++ " " ++ type.text ++ (if c.isNullable then " NULL" else " NOT NULL"),
      c.defaultText.elim "" (" DEFAULT " ++ ·), fun isKey => ?_⟩
    rw [column, if_neg ‹_›]

theorem carriesKey_iff {isKey : Bool} {c : Column} {line : String} (h : column d t isKey c = .ok line) :
    CarriesKey d t c line ↔ isKey = true := by
  obtain ⟨front, back, hcolumn⟩ := exists_column_eq h
  have hplain : column d t false c = .ok (front ++ back) := by
    rw [hcolumn, if_neg Bool.false_ne_true, String.append_empty]
  cases isKey with
  | false =>
    refine iff_of_false ?_ Bool.false_ne_true
    rintro ⟨front', back', hplain', rfl⟩
    have hlength := congrArg String.length (Except.ok.inj (h.symm.trans hplain'))
    have hclause : " PRIMARY KEY AUTOINCREMENT".length = 26 := by decide
    simp only [String.length_append, hclause] at hlength
    omega
  | true =>
    rw [hcolumn, if_pos rfl] at h
    exact iff_of_true ⟨front, back, hplain, (Except.ok.inj h).symm⟩ rfl

theorem failsWith_column (isKey : Bool) (c : Column) :
    FailsWith (¬BlamesIdentity ·) (column d t isKey c) := by
  unfold column
  split
  · exact .error nofun
  · exact .ok _

theorem failsWith_primaryKey (k : PrimaryKey) : FailsWith (¬BlamesIdentity ·) (primaryKey d t k) := by
  unfold primaryKey
  split
  · exact .error nofun
  · exact .ok _

theorem failsWith_foreignKey (k : ForeignKey) : FailsWith (¬BlamesIdentity ·) (foreignKey d t k) := by
  unfold foreignKey
  split
  · exact .error nofun
  · split
    · exact .error nofun
    · exact .ok _

theorem failsWith_constraints (identity : Option String) :
    FailsWith (¬BlamesIdentity ·) (constraints d t identity) := by
  rw [constraints_eq_bind]
  refine .bind ?_ fun keys => .bind (.mapM failsWith_foreignKey) fun lines => .ok _
  unfold keyLines
  split
  · exact (failsWith_primaryKey _).map _
  · exact .ok _

end Lines

section Checks

theorem identityColumn_eq (t : Table) : identityColumn t = match t.firstIdentity? with
    | none => .ok none
    | some c => if t.IsOnlyKey c.name then .ok (some c.name)
      else .error (.identityWithoutPrimaryKey t.name c.name) := rfl

theorem identityColumn_eq_ok {identity : Option String} (h : identityColumn t = .ok identity) :
    identity = t.firstIdentity?.map (·.name) ∧ ∀ first ∈ t.firstIdentity?, t.IsOnlyKey first.name := by
  rw [identityColumn_eq] at h
  cases hfirst : t.firstIdentity? with
  | none =>
    rw [hfirst] at h
    exact ⟨(Except.ok.inj h).symm, by simp⟩
  | some first =>
    rw [hfirst] at h
    dsimp only at h
    split at h
    · rename_i hkey
      refine ⟨(Except.ok.inj h).symm, fun k hk => ?_⟩
      obtain rfl : first = k := Option.some.inj hk
      exact hkey
    · cases h

theorem identityColumn_eq_error_iff {e : ScriptError} : identityColumn t = .error e ↔
    ∃ first ∈ t.firstIdentity?, ¬t.IsOnlyKey first.name ∧
      e = .identityWithoutPrimaryKey t.name first.name := by
  rw [identityColumn_eq]
  cases t.firstIdentity? with
  | none => exact iff_of_false nofun fun ⟨_, hmem, _⟩ => nomatch hmem
  | some first =>
    by_cases hkey : t.IsOnlyKey first.name
    · refine iff_of_false ?_ ?_
      · dsimp only
        rw [if_pos hkey]
        nofun
      · rintro ⟨k, hk, hnot, -⟩
        obtain rfl : first = k := Option.some.inj hk
        exact hnot hkey
    · dsimp only
      rw [if_neg hkey]
      constructor
      · intro h
        exact ⟨first, rfl, hkey, (Except.error.inj h).symm⟩
      · rintro ⟨k, hk, -, rfl⟩
        obtain rfl : first = k := Option.some.inj hk
        rfl

/-- Only the check of the first column with an identity blames an identity. -/
theorem identityColumn_of_createTable {withConstraints : Bool} {e : ScriptError}
    (h : createTable d withConstraints t = .error e) (he : BlamesIdentity e) :
    identityColumn t = .error e := by
  cases hempty : t.columns.isEmpty with
  | true =>
    unfold createTable at h
    rw [hempty] at h
    obtain rfl : .emptyColumnList t.name "table" = e := Except.error.inj h
    exact absurd he nofun
  | false =>
    rw [createTable_eq_bind hempty] at h
    rcases bind_eq_error h with h | ⟨identity, -, h⟩
    · exact h
    have hlines : FailsWith (¬BlamesIdentity ·)
        (if withConstraints then constraints d t identity else .ok []) := by
      cases withConstraints with
      | true => exact failsWith_constraints identity
      | false => exact .ok []
    have hcolumns : FailsWith (¬BlamesIdentity ·)
        (t.columns.mapM fun c => column d t (identity == some c.name) c) :=
      .mapM fun c => failsWith_column (identity == some c.name) c
    exact absurd he (hcolumns.bind (fun _ => hlines.bind fun _ => .ok _) e h)

end Checks

/-- Where what a relation says of two items depends on the first, another property says the same for all
pairs just if it is the same property of the first items. -/
theorem forall₂_iff_congr {α β : Type} {r : α → β → Prop} {p q : α → Prop} {as : List α} {bs : List β}
    (h : List.Forall₂ (fun a b => r a b ↔ p a) as bs) :
    List.Forall₂ (fun a b => r a b ↔ q a) as bs ↔ ∀ a ∈ as, (p a ↔ q a) := by
  induction h with
  | nil => exact iff_of_true .nil nofun
  | cons hab _ ih => rw [List.forall₂_cons, ih, hab, List.forall_mem_cons]

/-- The columns whose line carries the clause of an identity are those with the name of the first column
with an identity, and that name is the whole primary key. They are the columns with an identity where
those are the columns of one name. A table is refused for an identity just if its first column with an
identity is not the whole primary key. -/
theorem createTable_marks_first_identity (d : Delimiter) (withConstraints : Bool) (t : Table) :
    (∀ text, createTable d withConstraints t = .ok text → ∃ lines more,
      text = "CREATE TABLE " ++ quote d t.name ++ "(\n" ++
        ",\n".intercalate ((lines ++ more).map ("    " ++ ·)) ++ ")" ∧
      List.Forall₂ (fun c line => column d t false c = .ok line ∨ CarriesKey d t c line) t.columns lines ∧
      List.Forall₂ (fun c line => CarriesKey d t c line ↔ ∃ first ∈ t.firstIdentity?, c.name = first.name)
        t.columns lines ∧
      (∀ first ∈ t.firstIdentity?, t.IsOnlyKey first.name) ∧
      (List.Forall₂ (fun c line => CarriesKey d t c line ↔ c.identity.isSome = true) t.columns lines ↔
        t.IdentityIsByName)) ∧
    ∀ table name, createTable d withConstraints t = .error (.identityWithoutPrimaryKey table name) ↔
      ∃ first ∈ t.firstIdentity?, ¬t.IsOnlyKey first.name ∧ table = t.name ∧ name = first.name := by
  constructor
  · intro text h
    obtain ⟨identity, lines, more, hidentity, hlines, -, htext⟩ := exists_lines_of_createTable h
    obtain ⟨rfl, hkey⟩ := identityColumn_eq_ok hidentity
    have hrows := mapM_eq_ok_iff.1 hlines
    have hmarked : List.Forall₂ (fun c line => CarriesKey d t c line ↔
        ∃ first ∈ t.firstIdentity?, c.name = first.name) t.columns lines := by
      refine hrows.imp fun c line hline => (carriesKey_iff hline).trans ?_
      cases t.firstIdentity? with
      | none => simp
      | some first => simp [@eq_comm _ c.name]
    refine ⟨lines, more, htext, hrows.imp fun c line hline => ?_, hmarked, hkey, ?_⟩
    · cases hisKey : t.firstIdentity?.map (·.name) == some c.name with
      | false => exact .inl (hisKey ▸ hline)
      | true => exact .inr ((carriesKey_iff hline).2 hisKey)
    · rw [forall₂_iff_congr hmarked, Table.forall_firstIdentity?_iff]
  · intro table name
    constructor
    · intro h
      have hfails := identityColumn_of_createTable h ⟨table, name, rfl⟩
      obtain ⟨first, hfirst, hkey, herror⟩ := identityColumn_eq_error_iff.1 hfails
      obtain ⟨rfl, rfl⟩ := ScriptError.identityWithoutPrimaryKey.inj herror
      exact ⟨first, hfirst, hkey, rfl, rfl⟩
    · rintro ⟨first, hfirst, hkey, rfl, rfl⟩
      have hempty := Table.isEmpty_columns_of_firstIdentity? hfirst
      rw [createTable_eq_bind hempty, identityColumn_eq_error_iff.2 ⟨first, hfirst, hkey, rfl⟩]
      rfl

section Instance

/-- A column that counts up. -/
def counter (name : String) : Column where
  name := name
  type := { name := "int" }
  isNullable := false
  identity := some ⟨"1", "1"⟩

/-- Some columns that count up, and a primary key of one name. -/
def counters (names : List String) (key : String) : Table where
  name := "t"
  columns := names.map counter
  primaryKey := some { columns := [key] }

theorem typeName_int (d : Delimiter) : typeName d "int" = "int" := by
  have hplain : isPlain "int" = true := by
    rw [isPlain, Sqlite.parser_reserved, Sqlite.reserved_contains]
    decide
  rw [typeName, if_pos hplain]

theorem column_counter (d : Delimiter) (t : Table) (isKey : Bool) (name : String) :
    column d t isKey (counter name) = .ok (quote d name ++ " " ++ "int" ++ " NOT NULL" ++
      (if isKey then " PRIMARY KEY AUTOINCREMENT" else "") ++ "") := by
  have htype : typeName d (counter name).type.name = "int" := typeName_int d
  rw [column, htype, if_neg (by simp [counter])]
  rfl

theorem createTable_counters : createTable .brackets true (counters ["a", "b"] "a") =
    .ok ("CREATE TABLE [t](\n" ++ "    [a] int NOT NULL PRIMARY KEY AUTOINCREMENT,\n" ++
      "    [b] int NOT NULL)") := by
  have hidentity : identityColumn (counters ["a", "b"] "a") = .ok (some "a") := by decide
  have hcolumns : ((counters ["a", "b"] "a").columns.mapM fun c =>
      column .brackets (counters ["a", "b"] "a") (some "a" == some c.name) c) = .ok
        ["[a] int NOT NULL PRIMARY KEY AUTOINCREMENT", "[b] int NOT NULL"] := by
    refine mapM_eq_ok_iff.2 (.cons ?_ (.cons ?_ .nil)) <;> rw [column_counter] <;> decide
  have hlines : (if true then constraints .brackets (counters ["a", "b"] "a") (some "a") else .ok []) =
      .ok [] := rfl
  rw [createTable_of_lines rfl hidentity hcolumns hlines]
  decide +kernel

theorem not_identityIsByName_counters : ¬(counters ["a", "b"] "a").IdentityIsByName := by
  intro h
  have hname := (h (counter "a") (by simp [counters]) rfl (counter "b") (by simp [counters])).1 rfl
  exact absurd hname (by decide)

/-- Of two columns that count up only the first is marked, and with the second as its key the table is
refused. -/
theorem createTable_marks_first_identity_counters :
    (∃ lines, List.Forall₂ (fun c line => CarriesKey .brackets (counters ["a", "b"] "a") c line ↔
        ∃ first ∈ (counters ["a", "b"] "a").firstIdentity?, c.name = first.name)
        (counters ["a", "b"] "a").columns lines ∧
      ¬List.Forall₂ (fun c line => CarriesKey .brackets (counters ["a", "b"] "a") c line ↔
        c.identity.isSome = true) (counters ["a", "b"] "a").columns lines) ∧
    createTable .brackets true (counters ["a", "b"] "b") =
      .error (.identityWithoutPrimaryKey "t" "a") := by
  constructor
  · obtain ⟨lines, -, -, -, hmarked, -, hexact⟩ := (createTable_marks_first_identity .brackets true
      (counters ["a", "b"] "a")).1 _ createTable_counters
    exact ⟨lines, hmarked, fun h => not_identityIsByName_counters (hexact.1 h)⟩
  · exact ((createTable_marks_first_identity .brackets true (counters ["a", "b"] "b")).2 "t" "a").2
      ⟨counter "a", rfl, by decide, rfl, rfl⟩

/-- The second of two columns that count up is no key, and printed as a column that does not count up. -/
theorem createTable_loses_counter :
    createTable .brackets true (counters ["a", "b"] "a") = .ok ("CREATE TABLE [t](\n" ++
      "    [a] int NOT NULL PRIMARY KEY AUTOINCREMENT,\n" ++ "    [b] int NOT NULL)") ∧
    ∃ c ∈ (counters ["a", "b"] "a").columns, c.name = "b" ∧ c.identity.isSome = true ∧
      ¬(counters ["a", "b"] "a").IsOnlyKey c.name :=
  ⟨createTable_counters, counter "b", by simp [counters], rfl, rfl, by decide⟩

end Instance

end Script
end DdlSchema
