import DdlSchema.Proofs.Sqlite.Effect

/-! The run over the symbols of a statement builds the clause of the statement, or ends without one where
the statement is not valid. -/
namespace DdlSchema
namespace Sqlite

/-- A column after one more attribute. Its mark stays until the table ends. -/
def Attribute.apply (c : Column) : Attribute → Column
  | null => { c with isNullable := true }
  | notNull => { c with isNullable := false }
  | primaryKey counts => { c with
      properties := c.properties.insert inlineKeyMark ""
      identity := if counts then some ⟨"1", "1"⟩ else c.identity }
  | default value => { c with defaultText := some value.text }

/-- The column before the table ends. -/
def ColumnDef.marked (c : ColumnDef) : Column :=
  c.attributes.foldl Attribute.apply { name := c.name, type := c.typeDef }

/-- What stands behind an item begins with a comma, or with what follows the last item. -/
theorem exists_cons_commaBefore {α : Type} {f : α → List Symbol} {P : Symbol → Prop}
    (hcomma : P .comma) {y : Symbol} (hy : P y) (as : List α) (ys : List Symbol) :
    ∃ z zs, commaBefore f as ++ y :: ys = z :: zs ∧ P z := by
  cases as with
  | nil => exact ⟨y, ys, rfl, hy⟩
  | cons a as => exact ⟨.comma, f a ++ commaBefore f as ++ y :: ys, rfl, hcomma⟩

section Columns

open State

variable (d : Draft) (t : Table)

/-- What an attribute or the end of a column begins with. -/
theorem admits_attributes (as : List Attribute) {y : Symbol} (ys : List Symbol)
    (hy : columnAttributes.admits (some y) = true) :
    ∃ z zs, as.flatMap Attribute.symbols ++ y :: ys = z :: zs ∧
      columnAttributes.admits (some z) = true := by
  cases as with
  | nil => exact ⟨y, ys, rfl, hy⟩
  | cons a as =>
    cases a with
    | primaryKey counts => cases counts <;> exact ⟨_, _, rfl, rfl⟩
    | _ => exact ⟨_, _, rfl, rfl⟩

theorem run_default (value : DefaultValue) (c : Column) {y : Symbol} (ys : List Symbol)
    (hy : columnAttributes.admits (some y) = true) :
    run default (value.symbol :: y :: ys) (d.add (.table (t.addColumn c))) =
      run columnAttributes (y :: ys)
        (d.add (.table (t.addColumn { c with defaultText := some value.text }))) := by
  cases value with
  | null =>
    rw [DefaultValue.symbol, run_act rfl (effect_defaultNull d t c), run_idle (by decide) rfl hy]
    rfl
  | integer n =>
    rw [DefaultValue.symbol, run_act rfl (effect_defaultInteger d t c n), run_idle (by decide) rfl hy]
    rfl
  | string s =>
    rw [DefaultValue.symbol, run_act rfl (effect_defaultString d t c s), run_idle (by decide) rfl hy]
    rfl
  | current m =>
    have hmove : default.move (.keyword m.keyword) = some defaultKeyword := by cases m <;> rfl
    rw [DefaultValue.symbol, run_act hmove (effect_defaultKeyword d t c m), run_idle (by decide) rfl hy]
    rfl

theorem run_attribute (a : Attribute) (c : Column) {y : Symbol} (ys : List Symbol)
    (hy : columnAttributes.admits (some y) = true) :
    run columnAttributes (a.symbols ++ y :: ys) (d.add (.table (t.addColumn c))) =
      run columnAttributes (y :: ys) (d.add (.table (t.addColumn (a.apply c)))) := by
  cases a with
  | null =>
    simp only [Attribute.symbols, List.cons_append, List.nil_append]
    rw [run_act rfl (effect_null d t c), run_idle (by decide) rfl hy]
    rfl
  | notNull =>
    simp only [Attribute.symbols, List.cons_append, List.nil_append]
    rw [run_plain (e := .not) rfl rfl, run_act rfl (effect_notNull d t c), run_idle (by decide) rfl hy]
    rfl
  | default value =>
    simp only [Attribute.symbols, List.cons_append, List.nil_append]
    rw [run_plain (e := .default) rfl rfl, run_default d t value c ys hy]
    rfl
  | primaryKey counts =>
    cases counts with
    | false =>
      simp only [Attribute.symbols, List.cons_append, List.nil_append]
      rw [run_plain (e := .inlinePrimary) rfl rfl, run_act rfl (effect_inlinePrimaryKey d t c),
        run_idle (by decide) rfl hy]
      rfl
    | true =>
      simp only [Attribute.symbols, List.cons_append, List.nil_append]
      rw [run_plain (e := .inlinePrimary) rfl rfl, run_act rfl (effect_inlinePrimaryKey d t c),
        run_act rfl (effect_autoincrement d t _), run_idle (by decide) rfl hy]
      rfl

theorem run_attributes (as : List Attribute) (c : Column) {y : Symbol} (ys : List Symbol)
    (hy : columnAttributes.admits (some y) = true) :
    run columnAttributes (as.flatMap Attribute.symbols ++ y :: ys) (d.add (.table (t.addColumn c))) =
      run columnAttributes (y :: ys)
        (d.add (.table (t.addColumn (as.foldl Attribute.apply c)))) := by
  induction as generalizing c with
  | nil => rfl
  | cons a as ih =>
    obtain ⟨z, zs, hzs, hz⟩ := admits_attributes as ys hy
    rw [List.flatMap_cons, List.append_assoc, hzs, run_attribute d t a c zs hz, ← hzs, ih,
      List.foldl_cons]

/-- Whether the type arguments of a column are numbers of 32 bits. -/
def ColumnDef.Fits (c : ColumnDef) : Prop := ∀ n ∈ c.arguments.values, IsArgument n

instance (c : ColumnDef) : Decidable c.Fits := inferInstanceAs (Decidable (∀ n ∈ _, _))

/-- The type of a column, up to its attributes. -/
theorem run_type (c : ColumnDef) {z : Symbol} (zs : List Symbol)
    (hz : columnAttributes.admits (some z) = true) :
    run columnName (.name c.type :: (c.arguments.symbols ++ z :: zs))
      (d.add (.table (t.addColumn { name := c.name }))) =
      if c.Fits then
        run columnAttributes (z :: zs)
          (d.add (.table (t.addColumn { name := c.name, type := c.typeDef })))
      else none := by
  obtain ⟨name, type, arguments, attributes⟩ := c
  rw [run_act rfl (effect_typeName d t _ type)]
  cases arguments with
  | none =>
    rw [TypeArguments.symbols, List.nil_append, run_idle (by decide) rfl hz]
    exact (if_pos (by simp [ColumnDef.Fits, TypeArguments.values])).symm
  | size n =>
    simp only [TypeArguments.symbols, List.cons_append, List.nil_append, ColumnDef.Fits,
      TypeArguments.values, List.mem_singleton, forall_eq]
    rw [run_plain (e := typeOpen) rfl rfl, run_act_if rfl (effect_typeSize d t _ n),
      run_plain (e := typeClose) rfl rfl, run_idle (by decide) rfl hz]
    rfl
  | precision n scale =>
    simp only [TypeArguments.symbols, List.cons_append, List.nil_append, ColumnDef.Fits,
      TypeArguments.values, List.mem_cons, List.not_mem_nil, or_false, forall_eq_or_imp, forall_eq]
    rw [run_plain (e := typeOpen) rfl rfl, run_act_if rfl (effect_typeSize d t _ n),
      run_plain (e := typeComma) rfl rfl, run_act_if rfl (effect_typeScale d t _ scale),
      run_plain (e := typeClose) rfl rfl, run_idle (by decide) rfl hz, ite_and]
    rfl

theorem run_columnDef {s : State} (hs : ∀ n, s.move (.name n) = some columnName) (c : ColumnDef)
    {y : Symbol} (ys : List Symbol) (hy : columnAttributes.admits (some y) = true) :
    run s (c.symbols ++ y :: ys) (d.add (.table t)) =
      if c.Fits then run columnAttributes (y :: ys) (d.add (.table (t.addColumn c.marked)))
      else none := by
  obtain ⟨z, zs, hzs, hz⟩ := admits_attributes c.attributes ys hy
  simp only [ColumnDef.symbols, List.cons_append, List.append_assoc]
  rw [run_act (hs c.name) (effect_columnName d t c.name), hzs, run_type d t c zs hz, ← hzs]
  split
  · exact run_attributes d t c.attributes { name := c.name, type := c.typeDef } ys hy
  · rfl

/-- Commas and columns behind a column. -/
theorem run_columnDefs (cs : List ColumnDef) {y : Symbol} (ys : List Symbol)
    (hy : columnAttributes.admits (some y) = true) :
    run columnAttributes (commaBefore ColumnDef.symbols cs ++ y :: ys) (d.add (.table t)) =
      if ∀ c ∈ cs, c.Fits then
        run columnAttributes (y :: ys)
          (d.add (.table { t with columns := t.columns ++ cs.map ColumnDef.marked }))
      else none := by
  induction cs generalizing t with
  | nil => simp [commaBefore]
  | cons c cs ih =>
    obtain ⟨z, zs, hzs, hz⟩ := exists_cons_commaBefore (f := ColumnDef.symbols)
      (P := fun z => columnAttributes.admits (some z) = true) rfl hy cs ys
    have hcons : commaBefore ColumnDef.symbols (c :: cs) =
        .comma :: (c.symbols ++ commaBefore ColumnDef.symbols cs) := rfl
    rw [hcons, List.cons_append, List.append_assoc, run_plain (e := columnComma) rfl rfl, hzs,
      run_columnDef d t (fun _ => rfl) c zs hz, ← hzs, ih]
    simp only [List.forall_mem_cons, Table.addColumn, List.append_assoc, List.map_cons,
      List.cons_append, List.nil_append]
    by_cases hc : c.Fits <;> simp [hc]

end Columns

section Constraints

open State

/-- A listing between brackets, item by item. The draft after some items is known. -/
theorem run_listing {α : Type} {f : α → List Symbol} {D : List α → Draft} (o b s k e : State)
    (hb : o.move .opening = some b) (hk : s.move .comma = some k) (he : s.move .closing = some e)
    (hplain : b.action = none ∧ k.action = none ∧ e.action = none)
    (hitem : ∀ r, r = b ∨ r = k → ∀ as a z zs, z = .comma ∨ z = .closing →
      run r (f a ++ z :: zs) (D as) = run s (z :: zs) (D (as ++ [a])))
    (l : Listing α) (ys : List Symbol) :
    run o (l.symbols f ++ ys) (D []) = run e ys (D l.toList) := by
  obtain ⟨hb', hk', he'⟩ := hplain
  have hhead (as : List α) : ∃ z zs, commaBefore f as ++ .closing :: ys = z :: zs ∧
      (z = .comma ∨ z = .closing) :=
    exists_cons_commaBefore (.inl rfl) (.inr rfl) as ys
  have hmore (as bs : List α) : run s (commaBefore f as ++ .closing :: ys) (D bs) =
      run e ys (D (bs ++ as)) := by
    induction as generalizing bs with
    | nil => rw [List.append_nil]; exact run_plain he he' ys (D bs)
    | cons a as ih =>
      obtain ⟨z, zs, hzs, hz⟩ := hhead as
      have hcons : commaBefore f (a :: as) = .comma :: (f a ++ commaBefore f as) := rfl
      rw [hcons, List.cons_append, List.append_assoc, run_plain hk hk', hzs,
        hitem k (.inr rfl) bs a z zs hz, ← hzs, ih, List.append_assoc, List.singleton_append]
  obtain ⟨z, zs, hzs, hz⟩ := hhead l.more
  simp only [Listing.symbols, List.cons_append, List.append_assoc, List.nil_append]
  rw [run_plain hb hb', hzs, hitem b (.inl rfl) [] l.first z zs hz, ← hzs, hmore]
  rfl

/-- A name and the direction that may stand behind it, up to the sign behind both. -/
theorem run_orderedName {s n k i : State} {d : Draft} {D : OrderedName → Draft}
    (hs : ∀ name, s.move (.name name) = some n)
    (hk : ∀ direction, n.move (.keyword (directionKeyword direction)) = some k)
    (hi : i.matcher = .idle) (hni : i ∈ n.next) (hki : i ∈ k.next)
    (hend : i.admits (some .comma) = true ∧ i.admits (some .closing) = true) (a : OrderedName)
    (hname : n.effect (.name a.name) d = some (D ⟨a.name, none⟩))
    (hdirection : ∀ direction, k.effect (.keyword (directionKeyword direction))
      (D ⟨a.name, none⟩) = some (D ⟨a.name, some direction⟩))
    {z : Symbol} (zs : List Symbol) (hz : z = .comma ∨ z = .closing) :
    run s (a.symbols ++ z :: zs) d = run i (z :: zs) (D a) := by
  have hz' : i.admits (some z) = true := by
    rcases hz with rfl | rfl
    · exact hend.1
    · exact hend.2
  obtain ⟨name, direction⟩ := a
  cases direction with
  | none =>
    change run s (.name name :: z :: zs) _ = _
    rw [run_act (hs name) hname, run_idle hni hi hz']
  | some direction =>
    change run s (.name name :: .keyword (directionKeyword direction) :: z :: zs) _ = _
    rw [run_act (hs name) hname, run_act (hk direction) (hdirection direction),
      run_idle hki hi hz']

variable (d : Draft) (t : Table)

theorem run_pkName {s : State} (hs : ∀ n, s.move (.name n) = some pkColumnName) {k : PrimaryKey}
    (hk : t.primaryKey = some k) (n : OrderedName) {z : Symbol} (zs : List Symbol)
    (hz : z = .comma ∨ z = .closing) :
    run s (n.symbols ++ z :: zs) (d.add (.table t)) =
      run pkColumnEnd (z :: zs) (d.add (.table { t with
        primaryKey := some { k with columns := k.columns ++ [n.name] } })) := by
  let D (n : OrderedName) : Draft :=
    d.add (.table { t with primaryKey := some { k with columns := k.columns ++ [n.name] } })
  have hmove (direction : Direction) :
      pkColumnName.move (.keyword (directionKeyword direction)) = some pkAscOrDesc := by
    cases direction <;> rfl
  exact run_orderedName (D := D) hs hmove rfl (by decide) (by decide) ⟨rfl, rfl⟩ n
    (effect_pkColumnName d t hk n.name) (fun _ => rfl) zs hz

theorem run_primaryKey (name : Option String) (columns : Listing OrderedName) (ys : List Symbol) :
    run pkKey (columns.symbols OrderedName.symbols ++ ys)
      (d.add (.table { t with primaryKey := some ⟨name, []⟩ })) =
      run pkClose ys (d.add (.table { t with
        primaryKey := some ⟨name, columns.toList.map (·.name)⟩ })) := by
  let D (ns : List OrderedName) : Draft :=
    d.add (.table { t with primaryKey := some ⟨name, ns.map (·.name)⟩ })
  refine run_listing (D := D) pkKey pkOpen pkColumnEnd pkComma pkClose rfl rfl rfl
    ⟨rfl, rfl, rfl⟩ (fun r hr ns n z zs hz => ?_) columns ys
  have hmove (n : String) : r.move (.name n) = some pkColumnName := by
    rcases hr with rfl | rfl <;> rfl
  rw [run_pkName d _ hmove rfl n zs hz]
  simp only [D, List.map_append, List.map_cons, List.map_nil]

/-- A listing of names, of which a state puts each into the draft. -/
theorem run_names {D : List String → Draft} (o b s k e : State)
    (hb : o.move .opening = some b) (hk : s.move .comma = some k) (he : s.move .closing = some e)
    (hplain : b.action = none ∧ k.action = none ∧ e.action = none)
    (hmove : ∀ n, b.move (.name n) = some s ∧ k.move (.name n) = some s)
    (heffect : ∀ ns n, s.effect (.name n) (D ns) = some (D (ns ++ [n])))
    (l : Listing String) (ys : List Symbol) :
    run o (l.symbols nameSymbols ++ ys) (D []) = run e ys (D l.toList) := by
  refine run_listing o b s k e hb hk he hplain (fun r hr ns n z zs hz => ?_) l ys
  have hr' : r.move (.name n) = some s := by
    rcases hr with rfl | rfl
    · exact (hmove n).1
    · exact (hmove n).2
  exact run_act hr' (heffect ns n) (z :: zs)

theorem run_foreignKey (name : Option String) (columns referenced : Listing String) (table : String)
    (ys : List Symbol) :
    run fkKey (columns.symbols nameSymbols ++ .keyword .references :: .name table ::
        (referenced.symbols nameSymbols ++ ys)) (d.add (.table (t.addForeignKey { name }))) =
      run fkReferencedClose ys (d.add (.table (t.addForeignKey
        ⟨name, columns.toList, table, referenced.toList⟩))) := by
  let D (ns : List String) : Draft := d.add (.table (t.addForeignKey ⟨name, ns, "", []⟩))
  let E (ns : List String) : Draft :=
    d.add (.table (t.addForeignKey ⟨name, columns.toList, table, ns⟩))
  have hown (ys : List Symbol) : run fkKey (columns.symbols nameSymbols ++ ys) (D []) =
      run fkClose ys (D columns.toList) :=
    run_names fkKey fkOpen fkColumnName fkComma fkClose rfl rfl rfl ⟨rfl, rfl, rfl⟩
      (fun _ => ⟨rfl, rfl⟩) (fun _ n => effect_fkColumnName d t _ n) columns ys
  have hother : run fkReferencedTableName (referenced.symbols nameSymbols ++ ys) (E []) =
      run fkReferencedClose ys (E referenced.toList) :=
    run_names fkReferencedTableName fkReferencedOpen fkReferencedColumnName fkReferencedComma
      fkReferencedClose rfl rfl rfl ⟨rfl, rfl, rfl⟩ (fun _ => ⟨rfl, rfl⟩)
      (fun _ n => effect_fkReferencedColumnName d t _ n) referenced ys
  have htable := effect_fkReferencedTableName d t ⟨name, columns.toList, "", []⟩ table
  change run fkKey _ (D []) = _
  rw [hown, run_plain (e := fkReferences) rfl rfl, run_act rfl htable]
  exact hother

/-- The table after a key, with the name that waits for it. -/
def KeyDef.addTo (t : Table) (k : KeyDef) : Table :=
  let name := t.properties.get? constraintMark
  match k with
  | primary columns => { t with
      primaryKey := some ⟨name, columns.toList.map (·.name)⟩
      properties := t.properties.erase constraintMark }
  | foreign columns table referenced => { t with
      foreignKeys := t.foreignKeys ++ [⟨name, columns.toList, table, referenced.toList⟩]
      properties := t.properties.erase constraintMark }

theorem run_key {s : State} (hprimary : s.move (.keyword .primary) = some doPrimaryKey)
    (hforeign : s.move (.keyword .foreign) = some doForeignKey) (k : KeyDef) {y : Symbol}
    (ys : List Symbol) (hy : constraintEnd.admits (some y) = true) :
    run s (k.symbols ++ y :: ys) (d.add (.table t)) =
      if k.isPrimary ∧ t.primaryKey.isSome then none
      else run constraintEnd (y :: ys) (d.add (.table (k.addTo t))) := by
  let bare : Table := { t with properties := t.properties.erase constraintMark }
  cases k with
  | primary columns =>
    have hkey := effect_doPrimaryKey d t
    simp only [KeyDef.symbols, List.cons_append, KeyDef.isPrimary, true_and]
    by_cases ht : t.primaryKey.isSome
    · rw [if_pos ht] at hkey ⊢
      exact run_stuck hprimary hkey _
    · rw [if_neg ht] at hkey ⊢
      have hcolumns := run_primaryKey d bare (t.properties.get? constraintMark) columns (y :: ys)
      rw [run_act hprimary hkey, run_plain (e := pkKey) rfl rfl, hcolumns,
        run_idle (by decide) rfl hy]
      rfl
  | foreign columns table referenced =>
    simp only [KeyDef.symbols, List.cons_append, List.append_assoc, KeyDef.isPrimary,
      Bool.false_eq_true, false_and, if_false]
    have hcolumns := run_foreignKey d bare (t.properties.get? constraintMark) columns referenced
      table (y :: ys)
    rw [run_act hforeign (effect_doForeignKey d t), run_plain (e := fkKey) rfl rfl]
    change run fkKey _ (d.add (.table (bare.addForeignKey { name := _ }))) = _
    rw [hcolumns, run_idle (by decide) rfl hy]
    rfl

/-- The table after a constraint. -/
def ConstraintDef.addTo (t : Table) (c : ConstraintDef) : Table := { t with
  primaryKey := c.primaryKey?.or t.primaryKey
  foreignKeys := t.foreignKeys ++ c.foreignKey?.toList }

theorem run_constraintDef (ht : t.properties = .empty) (c : ConstraintDef) {y : Symbol}
    (ys : List Symbol) (hy : constraintEnd.admits (some y) = true) :
    run constraintComma (c.symbols ++ y :: ys) (d.add (.table t)) =
      if c.key.isPrimary ∧ t.primaryKey.isSome then none
      else run constraintEnd (y :: ys) (d.add (.table (c.addTo t))) := by
  obtain ⟨name, key⟩ := c
  cases name with
  | none =>
    simp only [ConstraintDef.symbols]
    rw [run_key d t rfl rfl key ys hy]
    congr 4
    cases key <;> simp [KeyDef.addTo, ConstraintDef.addTo, ht]
  | some name =>
    simp only [ConstraintDef.symbols, List.cons_append]
    rw [run_plain (e := constraint) rfl rfl, run_act rfl (effect_constraintName d t name),
      run_key d _ rfl rfl key ys hy]
    congr 4
    cases key <;> simp [KeyDef.addTo, ConstraintDef.addTo, ht]

theorem run_columnComma (c : ConstraintDef) (ys : List Symbol) (e : Draft) :
    run columnComma (c.symbols ++ ys) e = run constraintComma (c.symbols ++ ys) e := by
  obtain ⟨name, key⟩ := c
  cases name with
  | none => cases key <;> exact run_congr rfl _ e
  | some name => exact run_congr rfl _ e

theorem isSome_primaryKey? (c : ConstraintDef) : c.primaryKey?.isSome = c.key.isPrimary := by
  obtain ⟨name, key⟩ := c
  cases key <;> rfl

theorem isSome_findSome?_primaryKey? (cs : List ConstraintDef) :
    (cs.findSome? ConstraintDef.primaryKey?).isSome = decide (0 < cs.countP (·.key.isPrimary)) := by
  rw [Bool.eq_iff_iff, decide_eq_true_iff, List.findSome?_isSome_iff, List.countP_pos_iff]
  simp only [isSome_primaryKey?]

theorem findSome?_primaryKey? {cs : List ConstraintDef} (h : cs.countP (·.key.isPrimary) = 0) :
    cs.findSome? ConstraintDef.primaryKey? = none := by
  rw [← Option.not_isSome_iff_eq_none, isSome_findSome?_primaryKey?, h]
  simp

/-- Commas and constraints up to the closing bracket. One primary key is all that they can name. -/
theorem run_constraintDefs (ht : t.properties = .empty) (cs : List ConstraintDef)
    (ys : List Symbol) :
    run constraintEnd (commaBefore ConstraintDef.symbols cs ++ .closing :: ys) (d.add (.table t)) =
      if cs.countP (·.key.isPrimary) + t.primaryKey.isSome.toNat ≤ 1 then
        run constraintEnd (.closing :: ys) (d.add (.table { t with
          primaryKey := (cs.findSome? ConstraintDef.primaryKey?).or t.primaryKey
          foreignKeys := t.foreignKeys ++ cs.filterMap ConstraintDef.foreignKey? }))
      else none := by
  induction cs generalizing t with
  | nil =>
    have hle : t.primaryKey.isSome.toNat ≤ 1 := Bool.toNat_le _
    simp [commaBefore, hle]
  | cons c cs ih =>
    obtain ⟨z, zs, hzs, hz⟩ := exists_cons_commaBefore (f := ConstraintDef.symbols)
      (P := fun z => constraintEnd.admits (some z) = true) rfl (y := .closing) rfl cs ys
    have hcons : commaBefore ConstraintDef.symbols (c :: cs) =
        .comma :: (c.symbols ++ commaBefore ConstraintDef.symbols cs) := rfl
    rw [hcons, List.cons_append, List.append_assoc, run_plain (e := constraintComma) rfl rfl, hzs,
      run_constraintDef d t ht c zs hz, ← hzs, ih (c.addTo t) ht]
    obtain ⟨name, key⟩ := c
    simp only [List.countP_cons, List.findSome?_cons, List.filterMap_cons, ConstraintDef.addTo]
    cases key with
    | foreign columns table referenced => simp
    | primary columns =>
      cases hk : t.primaryKey with
      | some k => simp
      | none =>
        by_cases hcount : cs.countP (·.key.isPrimary) = 0
        · simp [hcount, findSome?_primaryKey? hcount]
        · have hsum : ¬cs.countP (·.key.isPrimary) + 1 ≤ 1 := by omega
          simp only [KeyDef.isPrimary_primary, primaryKey?_primary, Option.isSome_none,
            Option.isSome_some, Option.some_or, Bool.toNat_true, Bool.toNat_false, if_true,
            Bool.false_eq_true, and_false, if_false, Nat.add_zero, hsum]

end Constraints

section Ends

/-- What the attributes leave of a column, each kind by its last one. -/
theorem foldl_apply (as : List Attribute) (c : Column) :
    as.foldl Attribute.apply c = { c with
      isNullable := (as.filterMap Attribute.nullable?).getLast?.getD c.isNullable
      identity := if .primaryKey true ∈ as then some ⟨"1", "1"⟩ else c.identity
      defaultText := (as.filterMap Attribute.defaultText?).getLast?.or c.defaultText
      properties := if as.any Attribute.isPrimaryKey then c.properties.insert inlineKeyMark ""
        else c.properties } := by
  induction as generalizing c with
  | nil => rfl
  | cons a as ih =>
    rw [List.foldl_cons, ih]
    cases a with
    | null | notNull => simp [Attribute.apply, Attribute.nullable?, Attribute.defaultText?,
        Attribute.isPrimaryKey, List.getLast?_cons]
    | default value => simp [Attribute.apply, Attribute.nullable?, Attribute.defaultText?,
        Attribute.isPrimaryKey, List.getLast?_cons]
    | primaryKey counts =>
      cases counts <;> simp [Attribute.apply, Attribute.nullable?, Attribute.defaultText?,
        Attribute.isPrimaryKey]

theorem ColumnDef.marked_eq (c : ColumnDef) : c.marked = { c.column with
    properties := if c.isMarked then Properties.empty.insert inlineKeyMark "" else .empty } := by
  rw [marked, foldl_apply]
  simp [column, isMarked]

theorem kept_resolveKey (d : Draft) (t : Table) :
    (resolveKey (d.add (.table t))).kept =
      if t.primaryKey.isSome.toNat + (markedColumns t).length ≤ 1 then
        some (d.add (.table { eraseMarks t with
          primaryKey := t.primaryKey.or ((markedColumns t).head?.map fun n => ⟨none, [n]⟩) }))
      else none := by
  unfold resolveKey
  simp only [Draft.currentTable_add, Draft.replaceLast_add]
  match hm : markedColumns t, hk : t.primaryKey with
  | [], none => simp [Outcome.kept, eraseMarks, hk]
  | [], some k => simp [Outcome.kept, eraseMarks, hk]
  | [name], none => simp [Outcome.kept]
  | [name], some k => simp [Outcome.kept]
  | n :: m :: names, none => simp [Outcome.kept]
  | n :: m :: names, some k => simp [Outcome.kept]

theorem markedColumns_map (cs : List ColumnDef) (t : Table)
    (ht : t.columns = cs.map ColumnDef.marked) :
    markedColumns t = (cs.filter ColumnDef.isMarked).map (·.name) := by
  have hmark (c : ColumnDef) : (c.marked.properties.get? inlineKeyMark).isSome = c.isMarked := by
    rw [c.marked_eq]
    cases c.isMarked <;> simp
  have hname (c : ColumnDef) : c.marked.name = c.name := by rw [c.marked_eq]; rfl
  rw [markedColumns, ht, List.filter_map, List.map_map]
  simp only [Function.comp_def, hmark, hname]

theorem eraseMarks_eq (cs : List ColumnDef) (t : Table)
    (ht : t.columns = cs.map ColumnDef.marked) :
    eraseMarks t = { t with columns := cs.map ColumnDef.column } := by
  have herase (c : ColumnDef) :
      { c.marked with properties := c.marked.properties.erase inlineKeyMark } = c.column := by
    rw [c.marked_eq]
    cases c.isMarked <;> simp <;> rfl
  simp only [eraseMarks, ht, List.map_map, Function.comp_def, herase]

end Ends

section Definitions

open State

variable (d : Draft)

theorem run_constraintEnd (t : Table) :
    run constraintEnd [.closing] (d.add (.table t)) = (resolveKey (d.add (.table t))).kept := by
  rw [run_plain (e := tableClose) rfl rfl]
  rfl

/-- Constraints follow a column as they follow each other. -/
theorem run_columnAttributes (cs : List ConstraintDef) (e : Draft) :
    run columnAttributes (commaBefore ConstraintDef.symbols cs ++ [.closing]) e =
      run constraintEnd (commaBefore ConstraintDef.symbols cs ++ [.closing]) e := by
  cases cs with
  | nil => exact run_congr rfl _ e
  | cons c cs =>
    have hcons : commaBefore ConstraintDef.symbols (c :: cs) =
        .comma :: (c.symbols ++ commaBefore ConstraintDef.symbols cs) := rfl
    rw [hcons, List.cons_append, List.append_assoc, run_plain (e := columnComma) rfl rfl,
      run_plain (e := constraintComma) rfl rfl, run_columnComma]

/-- `IF NOT EXISTS` in front of a name leaves nothing behind. -/
theorem run_ifNotExists (s i n e : State) (hs : s.move (.keyword .ifWord) = some i)
    (hi : i.move (.keyword .not) = some n) (hn : n.move (.keyword .existsWord) = some e)
    (hplain : i.action = none ∧ n.action = none ∧ e.action = none) {name : String}
    (he : e.move (.name name) = s.move (.name name)) (b : Bool) (ys : List Symbol) :
    run s (ifNotExistsSymbols b ++ .name name :: ys) d = run s (.name name :: ys) d := by
  cases b with
  | false => rfl
  | true =>
    obtain ⟨hi', hn', he'⟩ := hplain
    change run s (.keyword .ifWord :: .keyword .not :: .keyword .existsWord :: _) _ = _
    rw [run_plain hs hi', run_plain hi hn', run_plain hn he']
    exact run_congr he ys d

theorem run_tableName (b : Bool) (name : String) (t : Table) (ys : List Symbol) :
    run doCreateTable (ifNotExistsSymbols b ++ .name name :: ys) (d.add (.table t)) =
      run tableName ys (d.add (.table { t with name })) := by
  rw [run_ifNotExists _ doCreateTable tableIf tableIfNot tableIfExists rfl rfl rfl ⟨rfl, rfl, rfl⟩ rfl]
  exact run_act rfl (effect_tableName d t name) ys

/-- The columns of a table, from its opening bracket on. -/
theorem run_columns (name : String) (cs : Listing ColumnDef) {y : Symbol} (ys : List Symbol)
    (hy : columnAttributes.admits (some y) = true) :
    run tableOpen (cs.first.symbols ++ (commaBefore ColumnDef.symbols cs.more ++ y :: ys))
      (d.add (.table { name })) =
      if ∀ c ∈ cs.toList, c.Fits then
        run columnAttributes (y :: ys)
          (d.add (.table { name, columns := cs.toList.map ColumnDef.marked }))
      else none := by
  obtain ⟨z, zs, hzs, hz⟩ := exists_cons_commaBefore (f := ColumnDef.symbols)
    (P := fun z => columnAttributes.admits (some z) = true) rfl hy cs.more ys
  rw [hzs, run_columnDef d _ (fun _ => rfl) cs.first zs hz, ← hzs, run_columnDefs d _ _ ys hy]
  by_cases hfirst : cs.first.Fits
  · rw [if_pos hfirst]
    simp only [Listing.toList, List.forall_mem_cons, hfirst, true_and, Table.addColumn,
      List.nil_append, List.map_cons, List.singleton_append]
  · rw [if_neg hfirst, if_neg fun h => hfirst (h _ List.mem_cons_self)]

/-- The rest of a table behind its columns. -/
theorem run_constraints (name : String) (cs : List ColumnDef) (ks : List ConstraintDef) :
    run columnAttributes (commaBefore ConstraintDef.symbols ks ++ [.closing])
      (d.add (.table { name, columns := cs.map ColumnDef.marked })) =
      if ks.countP (·.key.isPrimary) + cs.countP ColumnDef.isMarked ≤ 1 then
        some (d.add (.table {
          name, columns := cs.map ColumnDef.column
          primaryKey := (ks.findSome? ConstraintDef.primaryKey?).or
            ((cs.find? ColumnDef.isMarked).map fun c => ⟨none, [c.name]⟩)
          foreignKeys := ks.filterMap ConstraintDef.foreignKey? }))
      else none := by
  let t : Table := { name, columns := cs.map ColumnDef.marked }
  let t' : Table := { t with
    primaryKey := ks.findSome? ConstraintDef.primaryKey?
    foreignKeys := ks.filterMap ConstraintDef.foreignKey? }
  have hconstraints := run_constraintDefs d t rfl ks []
  have hmarked : markedColumns t' = (cs.filter ColumnDef.isMarked).map (·.name) :=
    markedColumns_map cs t' rfl
  have hkeys : t'.primaryKey.isSome = decide (0 < ks.countP (·.key.isPrimary)) :=
    isSome_findSome?_primaryKey? ks
  have hresolve := kept_resolveKey d t'
  rw [eraseMarks_eq cs t' rfl, hkeys, hmarked, List.length_map, ← List.countP_eq_length_filter] at hresolve
  simp only [t, Option.isSome_none, Bool.toNat_false, Nat.add_zero, Option.or_none,
    List.nil_append] at hconstraints
  rw [run_columnAttributes, hconstraints]
  by_cases hcount : ks.countP (·.key.isPrimary) ≤ 1
  · have hnat : (decide (0 < ks.countP (·.key.isPrimary))).toNat = ks.countP (·.key.isPrimary) := by
      rcases Nat.le_one_iff_eq_zero_or_eq_one.1 hcount with h | h <;> rw [h] <;> rfl
    have hkey : ((cs.filter ColumnDef.isMarked).map (·.name)).head?.map
        (fun n => PrimaryKey.mk none [n]) =
        (cs.find? ColumnDef.isMarked).map fun c => ⟨none, [c.name]⟩ := by
      rw [List.head?_map, List.head?_filter, Option.map_map]
      rfl
    rw [hnat, hkey] at hresolve
    rw [if_pos hcount]
    exact (run_constraintEnd d t').trans hresolve
  · rw [if_neg hcount, if_neg (by omega)]

theorem run_tableDef (t : TableDef) :
    run root t.symbols d =
      if (∀ c ∈ t.columns.toList, c.Fits) ∧ t.keyCount ≤ 1 then some (d.add (.table t.table))
      else none := by
  obtain ⟨y, ys, hys, hy⟩ := exists_cons_commaBefore (f := ConstraintDef.symbols)
    (P := fun y => columnAttributes.admits (some y) = true) rfl (y := .closing) rfl t.constraints []
  rw [TableDef.symbols, run_plain (e := create) rfl rfl, run_act rfl (effect_doCreateTable d),
    run_tableName, run_plain (e := tableOpen) rfl rfl, hys, run_columns d t.name t.columns ys hy,
    ← hys, run_constraints]
  by_cases hfits : ∀ c ∈ t.columns.toList, c.Fits
  · rw [if_pos hfits]
    exact (if_congr (and_iff_right hfits) rfl rfl).symm
  · rw [if_neg hfits, if_neg fun h => hfits h.1]

theorem run_indexName (b : Bool) (name : String) (i : Index) (ys : List Symbol) :
    run indexStart (ifNotExistsSymbols b ++ .name name :: ys) (d.add (.index i)) =
      run indexName ys (d.add (.index { i with name })) := by
  rw [run_ifNotExists _ indexStart indexIf indexIfNot indexIfExists rfl rfl rfl ⟨rfl, rfl, rfl⟩ rfl]
  exact run_act rfl (effect_indexName d i name) ys

theorem run_indexColumn {s : State} (hs : ∀ n, s.move (.name n) = some indexColumnName) (i : Index)
    (n : OrderedName) {z : Symbol} (zs : List Symbol) (hz : z = .comma ∨ z = .closing) :
    run s (n.symbols ++ z :: zs) (d.add (.index i)) =
      run indexColumnEnd (z :: zs) (d.add (.index (i.addColumn n.indexColumn))) := by
  let D (n : OrderedName) : Draft := d.add (.index (i.addColumn n.indexColumn))
  have hmove (direction : Direction) :
      indexColumnName.move (.keyword (directionKeyword direction)) = some indexColumnAscOrDesc := by
    cases direction <;> rfl
  have hdirection (direction : Direction) :
      indexColumnAscOrDesc.effect (.keyword (directionKeyword direction)) (D ⟨n.name, none⟩) =
        some (D ⟨n.name, some direction⟩) := by
    rw [effect_indexColumnAscOrDesc]
    cases direction <;> rfl
  exact run_orderedName (D := D) hs hmove rfl (by decide) (by decide) ⟨rfl, rfl⟩ n
    (effect_indexColumnName d i n.name) hdirection zs hz

theorem run_indexColumns (i : Index) (hi : i.columns = []) (l : Listing OrderedName) :
    run indexTableName (l.symbols OrderedName.symbols) (d.add (.index i)) =
      some (d.add (.index { i with columns := l.toList.map OrderedName.indexColumn })) := by
  let D (ns : List OrderedName) : Draft :=
    d.add (.index { i with columns := ns.map OrderedName.indexColumn })
  have hstart : D [] = d.add (.index i) := by simp only [D, List.map_nil, ← hi]
  rw [← hstart, ← List.append_nil (l.symbols _)]
  refine (run_listing indexTableName indexOpen indexColumnEnd indexComma indexClose rfl rfl rfl
    ⟨rfl, rfl, rfl⟩ (fun r hr ns n z zs hz => ?_) l []).trans rfl
  have hmove (n : String) : r.move (.name n) = some indexColumnName := by
    rcases hr with rfl | rfl <;> rfl
  rw [run_indexColumn d hmove _ n zs hz]
  simp only [D, Index.addColumn, List.map_append, List.map_cons, List.map_nil]

theorem run_indexDef (i : IndexDef) : run root i.symbols d = some (d.add (.index i.index)) := by
  obtain ⟨isUnique, ifNotExists, name, table, columns⟩ := i
  have hrest (unique : Bool) : run indexStart (ifNotExistsSymbols ifNotExists ++ .name name ::
      .keyword .onWord :: .name table :: columns.symbols OrderedName.symbols)
      (d.add (.index { isUnique := unique })) =
      some (d.add (.index (IndexDef.index ⟨unique, ifNotExists, name, table, columns⟩))) := by
    rw [run_indexName, run_plain (e := indexOn) rfl rfl, run_act rfl (effect_indexTableName d _ table),
      run_indexColumns d _ rfl]
    rfl
  have hhead : ∃ y ys, ifNotExistsSymbols ifNotExists ++ .name name :: .keyword .onWord ::
      .name table :: columns.symbols OrderedName.symbols = y :: ys ∧
      indexStart.admits (some y) = true := by
    cases ifNotExists <;> exact ⟨_, _, rfl, rfl⟩
  obtain ⟨y, ys, hys, hy⟩ := hhead
  cases isUnique with
  | true =>
    rw [IndexDef.symbols]
    change run root (.keyword .create :: .keyword .unique :: .keyword .index :: _) d = _
    rw [run_plain (e := create) rfl rfl, run_act rfl (effect_doCreateUniqueIndex d),
      run_plain (e := uniqueIndex) rfl rfl, ← hrest true, hys, run_idle (by decide) rfl hy]
  | false =>
    rw [IndexDef.symbols]
    change run root (.keyword .create :: .keyword .index :: _) d = _
    rw [run_plain (e := create) rfl rfl, run_act rfl (effect_doCreateIndex d), ← hrest false, hys,
      run_idle (by decide) rfl hy]

theorem forall_arguments_iff (t : TableDef) :
    (∀ n ∈ t.arguments, IsArgument n) ↔ ∀ c ∈ t.columns.toList, c.Fits :=
  List.forall_mem_flatMap

/-- A valid statement leads to its clause, and an invalid one to nothing. -/
theorem run_symbols (s : Definition) :
    run root s.symbols d = if s.IsValid then some (d.add s.clause) else none := by
  cases s with
  | table t =>
    refine (run_tableDef d t).trans (if_congr ?_ rfl rfl)
    exact and_congr_left' (forall_arguments_iff t).symm
  | index i => exact (run_indexDef d i).trans (if_pos trivial).symm

end Definitions

end Sqlite
end DdlSchema
