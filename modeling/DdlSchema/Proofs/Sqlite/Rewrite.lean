import DdlSchema.Proofs.Sqlite.Syntax

/-! The plainest statement that stands for the clause of another one: at most one attribute of a kind, no
marks for keys but with an identity, and directions only where they count. A column that shares its name
with the one that counts up is the only thing that cannot be written so. -/
namespace DdlSchema

/-- Whether no other column has the name of a column with an identity. -/
def Table.IdentityNameIsUnique (t : Table) : Prop :=
  ∀ (i j : Nat) (a b : Column), t.columns[i]? = some a → t.columns[j]? = some b →
    a.identity.isSome = true → b.name = a.name → i = j

theorem countP_le_one_iff {α : Type} (p : α → Bool) (l : List α) :
    l.countP p ≤ 1 ↔ ∀ (i j : Nat) (a b : α), l[i]? = some a → l[j]? = some b → p a = true →
      p b = true → i = j := by
  induction l with
  | nil => simp
  | cons x l ih =>
    rw [List.countP_cons]
    by_cases hx : p x = true
    · rw [if_pos hx, Nat.succ_le_succ_iff, Nat.le_zero, List.countP_eq_zero]
      constructor
      · intro hl i j a b hi hj ha hb
        cases i with
        | zero =>
          cases j with
          | zero => rfl
          | succ j => exact absurd hb (hl b (List.mem_of_getElem? hj))
        | succ i => exact absurd ha (hl a (List.mem_of_getElem? hi))
      · intro h a hmem ha
        obtain ⟨i, hi⟩ := List.getElem?_of_mem hmem
        exact absurd (h 0 (i + 1) x a rfl hi hx ha) (Nat.succ_ne_zero i).symm
    · rw [if_neg hx, Nat.add_zero, ih]
      constructor
      · intro h i j a b hi hj ha hb
        cases i with
        | zero =>
          obtain rfl : x = a := Option.some.inj hi
          exact absurd ha hx
        | succ i =>
          cases j with
          | zero =>
            obtain rfl : x = b := Option.some.inj hj
            exact absurd hb hx
          | succ j => rw [h i j a b hi hj ha hb]
      · intro h i j a b hi hj ha hb
        exact Nat.succ.inj (h (i + 1) (j + 1) a b hi hj ha hb)

/-- Two items of a kind that occurs once are one. -/
theorem eq_of_countP_le_one {α : Type} {p : α → Bool} {l : List α} (h : l.countP p ≤ 1) {a b : α}
    (hma : a ∈ l) (hmb : b ∈ l) (ha : p a = true) (hb : p b = true) : a = b := by
  obtain ⟨i, hi⟩ := List.getElem?_of_mem hma
  obtain ⟨j, hj⟩ := List.getElem?_of_mem hmb
  obtain rfl := (countP_le_one_iff p l).1 h i j a b hi hj ha hb
  exact Option.some.inj (hi.symm.trans hj)

namespace Sqlite

section Columns

def Attribute.default? : Attribute → Option DefaultValue
  | default value => some value
  | _ => none

/-- The value of the last default attribute. -/
def ColumnDef.default? (c : ColumnDef) : Option DefaultValue :=
  (c.attributes.filterMap Attribute.default?).getLast?

/-- Whether a column counts up. -/
def ColumnDef.isCounted (c : ColumnDef) : Bool := decide (.primaryKey true ∈ c.attributes)

/-- One attribute of each kind that a column has. -/
def plainAttributes (isNullable isKey : Bool) (value : Option DefaultValue) : List Attribute :=
  (if isNullable then .null else .notNull) ::
    ((if isKey then [.primaryKey true] else []) ++ value.toList.map .default)

def ColumnDef.rewritten (isKey : Bool) (c : ColumnDef) : ColumnDef :=
  { c with attributes := plainAttributes c.column.isNullable isKey c.default? }

variable (isKey : Bool) (c : ColumnDef)

@[simp] theorem ColumnDef.name_typeDef : c.typeDef.name = c.type := by
  rw [typeDef]
  cases c.arguments <;> rfl

theorem ColumnDef.defaultText_column : c.column.defaultText = c.default?.map DefaultValue.text := by
  have hdefault : Attribute.defaultText? = fun a => (Attribute.default? a).map DefaultValue.text := by
    funext a
    cases a <;> rfl
  rw [column, default?, hdefault, ← List.map_filterMap, List.getLast?_map]

theorem ColumnDef.identity_column :
    c.column.identity = if c.isCounted then some ⟨"1", "1"⟩ else none := by
  simp [column, isCounted]

@[simp] theorem ColumnDef.isSome_identity_column : c.column.identity.isSome = c.isCounted := by
  rw [identity_column]
  cases c.isCounted <;> rfl

theorem ColumnDef.isMarked_of_isCounted {c : ColumnDef} (h : c.isCounted = true) :
    c.isMarked = true :=
  List.any_eq_true.2 ⟨_, of_decide_eq_true h, rfl⟩

@[simp] theorem ColumnDef.isMarked_rewritten : (c.rewritten isKey).isMarked = isKey := by
  rw [rewritten, isMarked]
  cases isKey <;> cases c.column.isNullable <;> cases c.default? <;> rfl

@[simp] theorem ColumnDef.isCounted_rewritten : (c.rewritten isKey).isCounted = isKey := by
  rw [rewritten, isCounted]
  cases isKey <;> cases c.column.isNullable <;> cases c.default? <;> simp [plainAttributes]

@[simp] theorem ColumnDef.default?_rewritten : (c.rewritten isKey).default? = c.default? := by
  rw [rewritten, default?]
  cases isKey <;> cases c.column.isNullable <;> cases c.default? <;> rfl

theorem ColumnDef.isNullable_rewritten :
    (c.rewritten isKey).column.isNullable = c.column.isNullable := by
  rw [rewritten, column]
  cases isKey <;> cases c.column.isNullable <;> cases c.default? <;> rfl

theorem ColumnDef.column_rewritten :
    (c.rewritten isKey).column =
      { c.column with identity := if isKey then some ⟨"1", "1"⟩ else none } := by
  have hidentity := (c.rewritten isKey).identity_column
  have hdefault := (c.rewritten isKey).defaultText_column
  rw [isCounted_rewritten] at hidentity
  rw [default?_rewritten, ← defaultText_column] at hdefault
  rw [Column.mk.injEq]
  exact ⟨rfl, rfl, c.isNullable_rewritten isKey, hidentity, hdefault, rfl⟩

end Columns

section Keys

def Listing.map {α β : Type} (f : α → β) (l : Listing α) : Listing β := ⟨f l.first, l.more.map f⟩

@[simp] theorem Listing.toList_map {α β : Type} (f : α → β) (l : Listing α) :
    (l.map f).toList = l.toList.map f := rfl

theorem Listing.symbols_map {α β : Type} (f : α → β) (g : β → List Symbol) (l : Listing α) :
    (l.map f).symbols g = l.symbols (g ∘ f) := by
  simp [map, symbols, commaBefore, List.flatMap_map]

/-- The name of the first column that counts up. -/
def TableDef.identity? (t : TableDef) : Option String :=
  (t.columns.toList.find? ColumnDef.isCounted).map (·.name)

/-- A primary key of columns without directions. -/
def KeyDef.ofNames (names : Listing String) : KeyDef :=
  .primary (names.map fun n => { name := n })

/-- The constraint without the directions of its columns. -/
def ConstraintDef.undirected (c : ConstraintDef) : ConstraintDef :=
  match c.key with
  | .primary columns => { c with key := .ofNames (columns.map (·.name)) }
  | .foreign .. => c

/-- The constraint that says what the primary key is. -/
def TableDef.keyConstraint? (t : TableDef) : Option ConstraintDef :=
  ((t.constraints.find? (·.key.isPrimary)).map ConstraintDef.undirected).or
    ((t.columns.toList.find? ColumnDef.isMarked).map fun c => { key := .ofNames ⟨c.name, []⟩ })

/-- The table with its constraints or without them. A key that stands with its column has none. -/
def TableDef.rewritten (withConstraints : Bool) (t : TableDef) : TableDef where
  name := t.name
  columns := t.columns.map fun c => c.rewritten (t.identity? == some c.name)
  constraints :=
    if withConstraints then
      (if t.identity?.isNone then t.keyConstraint?.toList else []) ++
        t.constraints.filter (!·.key.isPrimary)
    else []

theorem primaryKey?_ofNames (name : Option String) (names : Listing String) :
    (ConstraintDef.mk name (.ofNames names)).primaryKey? = some ⟨name, names.toList⟩ := by
  simp [KeyDef.ofNames, Function.comp_def]

theorem ConstraintDef.primaryKey?_undirected (c : ConstraintDef) :
    c.undirected.primaryKey? = c.primaryKey? := by
  obtain ⟨name, columns | ⟨columns, table, referenced⟩⟩ := c
  · exact primaryKey?_ofNames name (columns.map (·.name))
  · rfl

theorem ConstraintDef.isPrimary_undirected (c : ConstraintDef) :
    c.undirected.key.isPrimary = c.key.isPrimary := by
  obtain ⟨name, columns | ⟨columns, table, referenced⟩⟩ := c <;> rfl

theorem findSome?_primaryKey?_eq_bind (cs : List ConstraintDef) :
    cs.findSome? ConstraintDef.primaryKey? =
      (cs.find? (·.key.isPrimary)).bind ConstraintDef.primaryKey? := by
  induction cs with
  | nil => rfl
  | cons c cs ih =>
    obtain ⟨name, columns | ⟨columns, table, referenced⟩⟩ := c
    · rfl
    · exact ih

variable {t : TableDef}

theorem TableDef.primaryKey_table :
    t.table.primaryKey = t.keyConstraint?.bind ConstraintDef.primaryKey? := by
  have htable : t.table.primaryKey =
      (t.constraints.findSome? ConstraintDef.primaryKey?).or t.inlineKey? := rfl
  rw [htable, findSome?_primaryKey?_eq_bind, keyConstraint?, inlineKey?]
  cases hfind : t.constraints.find? (·.key.isPrimary) with
  | none =>
    rw [Option.map_none, Option.none_or, Option.bind_map, Option.bind_none, Option.none_or,
      Option.map_eq_bind]
    rfl
  | some c =>
    have hc := List.find?_some hfind
    obtain ⟨name, columns | ⟨columns, table, referenced⟩⟩ := c
    · simp [ConstraintDef.primaryKey?_undirected]
    · cases hc

theorem TableDef.isPrimary_of_keyConstraint? {c : ConstraintDef} (h : t.keyConstraint? = some c) :
    c.key.isPrimary = true := by
  rcases Option.or_eq_some_iff.1 h with h | ⟨-, h⟩
  · obtain ⟨k, hk, rfl⟩ := Option.map_eq_some_iff.1 h
    have hkey := List.find?_some hk
    rwa [ConstraintDef.isPrimary_undirected]
  · obtain ⟨k, -, rfl⟩ := Option.map_eq_some_iff.1 h
    rfl

end Keys

section Validity

variable {t : TableDef}

theorem TableDef.identityNameIsUnique_iff :
    t.table.IdentityNameIsUnique ↔ ∀ (i j : Nat) (a b : ColumnDef), t.columns.toList[i]? = some a →
      t.columns.toList[j]? = some b → a.isCounted = true → b.name = a.name → i = j := by
  have hcolumns : t.table.columns = t.columns.toList.map ColumnDef.column := rfl
  rw [Table.IdentityNameIsUnique, hcolumns]
  constructor
  · intro h i j a b hi hj ha hname
    refine h i j a.column b.column ?_ ?_ ?_ hname
    · rw [List.getElem?_map, hi, Option.map_some]
    · rw [List.getElem?_map, hj, Option.map_some]
    · rwa [ColumnDef.isSome_identity_column]
  · intro h i j a b hi hj ha hname
    rw [List.getElem?_map, Option.map_eq_some_iff] at hi hj
    obtain ⟨c, hc, rfl⟩ := hi
    obtain ⟨e, he, rfl⟩ := hj
    rw [ColumnDef.isSome_identity_column] at ha
    exact h i j c e hc he ha hname

theorem TableDef.isCounted_eq_false_of_identity? (h : t.identity? = none) {c : ColumnDef}
    (hc : c ∈ t.columns.toList) : c.isCounted = false := by
  rw [identity?, Option.map_eq_none_iff, List.find?_eq_none] at h
  exact Bool.eq_false_iff.2 (h c hc)

/-- The column whose name `identity?` is. -/
theorem TableDef.exists_of_identity? {n : String} (h : t.identity? = some n) :
    ∃ k ∈ t.columns.toList, k.isCounted = true ∧ k.name = n := by
  obtain ⟨k, hk, hn⟩ := Option.map_eq_some_iff.1 h
  exact ⟨k, List.mem_of_find?_eq_some hk, List.find?_some hk, hn⟩

theorem TableDef.arguments_rewritten (withConstraints : Bool) :
    (t.rewritten withConstraints).arguments = t.arguments := by
  simp [arguments, rewritten, List.flatMap_map, ColumnDef.rewritten]

theorem TableDef.countP_isMarked_rewritten (withConstraints : Bool) :
    (t.rewritten withConstraints).columns.toList.countP ColumnDef.isMarked =
      t.columns.toList.countP fun c => t.identity? == some c.name := by
  simp [rewritten, List.countP_map, Function.comp_def]

theorem TableDef.countP_isPrimary_rewritten (withConstraints : Bool) :
    (t.rewritten withConstraints).constraints.countP (·.key.isPrimary) =
      if withConstraints && t.identity?.isNone then t.keyConstraint?.toList.length else 0 := by
  have hforeign : (t.constraints.filter (!·.key.isPrimary)).countP (·.key.isPrimary) = 0 := by
    rw [List.countP_eq_zero]
    intro c hc
    simpa using (List.mem_filter.1 hc).2
  have hkeys : t.keyConstraint?.toList.countP (·.key.isPrimary) = t.keyConstraint?.toList.length := by
    rw [List.countP_eq_length]
    intro c hc
    exact isPrimary_of_keyConstraint? (Option.mem_toList.1 hc)
  cases withConstraints <;> cases hid : t.identity? <;>
    simp [rewritten, hid, List.countP_append, hforeign, hkeys]

variable (hvalid : (Definition.table t).IsValid)

include hvalid

/-- A table with a column that counts up has no other key, and no other column that is marked. -/
theorem TableDef.keyCount_of_isCounted {k : ColumnDef} (hk : k ∈ t.columns.toList)
    (hcounted : k.isCounted = true) : t.constraints.countP (·.key.isPrimary) = 0 ∧
      t.columns.toList.countP ColumnDef.isMarked ≤ 1 := by
  have hcount := hvalid.2
  have hpos : 0 < t.columns.toList.countP ColumnDef.isMarked :=
    List.countP_pos_iff.2 ⟨k, hk, ColumnDef.isMarked_of_isCounted hcounted⟩
  rw [keyCount] at hcount
  omega

theorem TableDef.eq_of_isMarked {k c : ColumnDef} (hk : k ∈ t.columns.toList)
    (hcounted : k.isCounted = true) (hc : c ∈ t.columns.toList) (hmarked : c.isMarked = true) :
    k = c :=
  eq_of_countP_le_one (keyCount_of_isCounted hvalid hk hcounted).2 hk hc
    (ColumnDef.isMarked_of_isCounted hcounted) hmarked

theorem TableDef.identityNameIsUnique_iff_countP : t.table.IdentityNameIsUnique ↔
    t.columns.toList.countP (fun c => t.identity? == some c.name) ≤ 1 := by
  rw [identityNameIsUnique_iff, countP_le_one_iff]
  cases hid : t.identity? with
  | none =>
    refine ⟨fun _ i j a b _ _ ha => absurd ha (by simp), fun _ i j a b hi _ ha => ?_⟩
    rw [isCounted_eq_false_of_identity? hid (List.mem_of_getElem? hi)] at ha
    cases ha
  | some n =>
    obtain ⟨k, hk, hcounted, rfl⟩ := exists_of_identity? hid
    simp only [beq_iff_eq, Option.some.injEq]
    constructor
    · intro h i j a b hi hj ha hb
      obtain ⟨p, hp⟩ := List.getElem?_of_mem hk
      have hpi : p = i := h p i k a hp hi hcounted ha.symm
      have hpj : p = j := h p j k b hp hj hcounted hb.symm
      exact hpi.symm.trans hpj
    · intro h i j a b hi hj ha hname
      obtain rfl : k = a := eq_of_isMarked hvalid hk hcounted (List.mem_of_getElem? hi)
        (ColumnDef.isMarked_of_isCounted ha)
      exact h i j k b hi hj rfl hname.symm

/-- What is written anew can be valid only if the name of the column that counts up is its own. -/
theorem TableDef.isValid_rewritten (withConstraints : Bool) :
    (Definition.table (t.rewritten withConstraints)).IsValid ↔ t.table.IdentityNameIsUnique := by
  have harguments : ∀ n ∈ (t.rewritten withConstraints).arguments, IsArgument n := by
    rw [arguments_rewritten]
    exact hvalid.1
  rw [identityNameIsUnique_iff_countP hvalid, Definition.IsValid, keyCount,
    countP_isMarked_rewritten, countP_isPrimary_rewritten]
  refine ⟨fun h => by omega, fun h => ⟨harguments, ?_⟩⟩
  split
  · rename_i hid
    rw [Bool.and_eq_true, Option.isNone_iff_eq_none] at hid
    have hmarks : t.columns.toList.countP (fun c => t.identity? == some c.name) = 0 := by
      rw [hid.2, List.countP_eq_zero]
      simp
    have hlength : t.keyConstraint?.toList.length ≤ 1 := Option.length_toList_le
    omega
  · omega

end Validity

section Meaning

variable {t : TableDef} (hvalid : (Definition.table t).IsValid)
  (hunique : t.table.IdentityNameIsUnique)

include hvalid hunique

/-- The columns with the name of the one that counts up are that column alone. -/
theorem TableDef.identity?_beq {c : ColumnDef} (hc : c ∈ t.columns.toList) :
    (t.identity? == some c.name) = c.isCounted := by
  have hcount := (identityNameIsUnique_iff_countP hvalid).1 hunique
  cases hid : t.identity? with
  | none => rw [isCounted_eq_false_of_identity? hid hc]; rfl
  | some n =>
    obtain ⟨k, hk, hcounted, rfl⟩ := exists_of_identity? hid
    rw [Bool.eq_iff_iff, beq_iff_eq, Option.some.injEq]
    constructor
    · intro hname
      have hkey : k = c := eq_of_countP_le_one hcount hk hc (by simp [hid]) (by simp [hid, hname])
      rwa [← hkey]
    · intro hcounted'
      rw [eq_of_isMarked hvalid hk hcounted hc (ColumnDef.isMarked_of_isCounted hcounted')]

theorem TableDef.columns_rewritten (withConstraints : Bool) :
    (t.rewritten withConstraints).table.columns = t.table.columns := by
  have hrewritten : (t.rewritten withConstraints).table.columns =
      t.columns.toList.map fun c => (c.rewritten (t.identity? == some c.name)).column := by
    rw [table, rewritten, Listing.toList_map, List.map_map]
    rfl
  rw [hrewritten]
  refine List.map_congr_left fun c hc => ?_
  rw [identity?_beq hvalid hunique hc, ColumnDef.column_rewritten, ← ColumnDef.identity_column]

theorem TableDef.inlineKey?_rewritten (withConstraints : Bool) :
    (t.rewritten withConstraints).inlineKey? = t.identity?.map fun n => ⟨none, [n]⟩ := by
  have hfind : t.columns.toList.find? (fun c => t.identity? == some c.name) =
      t.columns.toList.find? ColumnDef.isCounted := by
    rw [← List.head?_filter, ← List.head?_filter,
      List.filter_congr fun c hc => identity?_beq hvalid hunique hc]
  have hmarked : (ColumnDef.isMarked ∘ fun c : ColumnDef =>
      c.rewritten (t.identity? == some c.name)) = fun c => t.identity? == some c.name := by
    funext c
    exact c.isMarked_rewritten _
  rw [inlineKey?, rewritten, Listing.toList_map, List.find?_map, hmarked, hfind, Option.map_map,
    identity?, Option.map_map]
  rfl

end Meaning

section Meaning

variable {t : TableDef}

theorem TableDef.isSome_identity? : t.identity?.isSome = t.table.columns.any (·.identity.isSome) := by
  have hcolumns : t.table.columns = t.columns.toList.map ColumnDef.column := rfl
  have hcounted : ((·.identity.isSome) ∘ ColumnDef.column) = ColumnDef.isCounted := by
    funext c
    exact c.isSome_identity_column
  rw [identity?, Option.isSome_map, hcolumns, List.any_map, hcounted, Bool.eq_iff_iff,
    List.find?_isSome, List.any_eq_true]

/-- The key of a table with a column that counts up. -/
theorem TableDef.primaryKey_table_of_identity? (hvalid : (Definition.table t).IsValid) {n : String}
    (h : t.identity? = some n) : t.table.primaryKey = some ⟨none, [n]⟩ := by
  obtain ⟨k, hk, hcounted, rfl⟩ := exists_of_identity? h
  obtain ⟨hkeys, -⟩ := keyCount_of_isCounted hvalid hk hcounted
  have hconstraint : t.constraints.find? (·.key.isPrimary) = none := by
    rw [List.find?_eq_none]
    exact List.countP_eq_zero.1 hkeys
  have hmarked : t.columns.toList.find? ColumnDef.isMarked = some k := by
    cases hfind : t.columns.toList.find? ColumnDef.isMarked with
    | none => exact absurd (ColumnDef.isMarked_of_isCounted hcounted) (List.find?_eq_none.1 hfind k hk)
    | some c =>
      rw [eq_of_isMarked hvalid hk hcounted (List.mem_of_find?_eq_some hfind)
        (List.find?_some hfind)]
  rw [primaryKey_table, keyConstraint?, hconstraint, hmarked]
  rfl

theorem TableDef.findSome?_primaryKey?_rewritten (withConstraints : Bool) :
    (t.rewritten withConstraints).constraints.findSome? ConstraintDef.primaryKey? =
      if withConstraints && t.identity?.isNone then t.table.primaryKey else none := by
  have hforeign : (t.constraints.filter (!·.key.isPrimary)).find? (·.key.isPrimary) = none := by
    rw [List.find?_eq_none]
    intro c hc
    simpa using (List.mem_filter.1 hc).2
  have hkeys : t.keyConstraint?.toList.find? (·.key.isPrimary) = t.keyConstraint? := by
    cases hkey : t.keyConstraint? with
    | none => rfl
    | some c => simp [isPrimary_of_keyConstraint? hkey]
  rw [findSome?_primaryKey?_eq_bind, primaryKey_table]
  cases withConstraints <;> cases hid : t.identity? <;>
    simp [rewritten, hid, List.find?_append, hforeign, hkeys]

theorem TableDef.foreignKeys_rewritten : (t.rewritten true).table.foreignKeys = t.table.foreignKeys := by
  have hkeys : t.keyConstraint?.toList.filterMap ConstraintDef.foreignKey? = [] := by
    rw [List.filterMap_eq_nil_iff]
    intro c hc
    have hprimary := isPrimary_of_keyConstraint? (Option.mem_toList.1 hc)
    obtain ⟨name, columns | ⟨columns, table, referenced⟩⟩ := c
    · rfl
    · cases hprimary
  have hforeign : (t.constraints.filter (!·.key.isPrimary)).filterMap ConstraintDef.foreignKey? =
      t.constraints.filterMap ConstraintDef.foreignKey? := by
    rw [List.filterMap_filter]
    refine congrArg (List.filterMap · t.constraints) (funext fun c => ?_)
    obtain ⟨name, columns | ⟨columns, table, referenced⟩⟩ := c <;> rfl
  have htable : (t.rewritten true).table.foreignKeys =
      (t.rewritten true).constraints.filterMap ConstraintDef.foreignKey? := rfl
  rw [htable, rewritten]
  cases t.identity? <;> simp [List.filterMap_append, hkeys, hforeign, table]

variable (hvalid : (Definition.table t).IsValid) (hunique : t.table.IdentityNameIsUnique)

include hvalid hunique

theorem TableDef.primaryKey_rewritten (withConstraints : Bool) :
    (t.rewritten withConstraints).table.primaryKey =
      if withConstraints || t.identity?.isSome then t.table.primaryKey else none := by
  have htable : (t.rewritten withConstraints).table.primaryKey =
      ((t.rewritten withConstraints).constraints.findSome? ConstraintDef.primaryKey?).or
        (t.rewritten withConstraints).inlineKey? := rfl
  rw [htable, findSome?_primaryKey?_rewritten, inlineKey?_rewritten hvalid hunique]
  cases hid : t.identity? with
  | none => cases withConstraints <;> simp
  | some n =>
    rw [primaryKey_table_of_identity? hvalid hid]
    cases withConstraints <;> rfl

/-- Nothing is lost with the constraints. -/
theorem TableDef.table_rewritten_true : (t.rewritten true).table = t.table := by
  rw [Table.mk.injEq]
  exact ⟨rfl, columns_rewritten hvalid hunique true, primaryKey_rewritten hvalid hunique true,
    foreignKeys_rewritten, rfl, rfl⟩

theorem TableDef.table_rewritten_false : (t.rewritten false).table =
    { t.table with
      foreignKeys := []
      primaryKey := if t.identity?.isSome then t.table.primaryKey else none } := by
  rw [Table.mk.injEq]
  exact ⟨rfl, columns_rewritten hvalid hunique false, primaryKey_rewritten hvalid hunique false,
    rfl, rfl, rfl⟩

end Meaning

section Indexes

/-- The index with the direction of each column. -/
def IndexDef.rewritten (i : IndexDef) : IndexDef :=
  { i with
    ifNotExists := false
    columns := i.columns.map fun n => { name := n.name, direction := some n.indexColumn.direction } }

theorem IndexDef.index_rewritten (i : IndexDef) : i.rewritten.index = i.index := by
  have hcolumn (n : OrderedName) : OrderedName.indexColumn
      { name := n.name, direction := some n.indexColumn.direction } = n.indexColumn := by
    obtain ⟨name, _ | _ | _⟩ := n <;> rfl
  rw [index, index, rewritten, Listing.toList_map, List.map_map]
  refine congrArg (Index.mk i.name i.table i.isUnique) (List.map_congr_left fun n _ => hcolumn n)

end Indexes

end Sqlite
end DdlSchema
