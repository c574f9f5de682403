import DdlSchema.Proofs.Sqlite.Run
import DdlSchema.Proofs.Sqlite.Syntax

/-! What each state with an action does with a symbol that it takes, where the draft ends in a clause of
its stage. -/
namespace DdlSchema
namespace Sqlite

theorem run_plain {s e : State} {x : Symbol} (h : s.move x = some e) (he : e.action = none)
    (xs : List Symbol) (d : Draft) : run s (x :: xs) d = run e xs d := by
  rw [run_cons h, State.effect, he, Option.bind_some]

theorem run_act {s e : State} {x : Symbol} (h : s.move x = some e) {d d' : Draft}
    (he : e.effect x d = some d') (xs : List Symbol) : run s (x :: xs) d = run e xs d' := by
  rw [run_cons h, he, Option.bind_some]

theorem run_stuck {s e : State} {x : Symbol} (h : s.move x = some e) {d : Draft}
    (he : e.effect x d = none) (xs : List Symbol) : run s (x :: xs) d = none := by
  rw [run_cons h, he, Option.bind_none]

theorem run_act_if {s e : State} {x : Symbol} (h : s.move x = some e) {P : Prop} [Decidable P]
    {d d' : Draft} (he : e.effect x d = if P then some d' else none) (xs : List Symbol) :
    run s (x :: xs) d = if P then run e xs d' else none := by
  rw [run_cons h, he]
  split <;> rfl

/-- The run hangs on the move with the first symbol only. -/
theorem run_congr {s s' : State} {x : Symbol} (h : s.move x = s'.move x) (xs : List Symbol)
    (d : Draft) : run s (x :: xs) d = run s' (x :: xs) d := by
  rw [run, run, h]

namespace State

theorem effect_eq {s : State} {a : Action} (h : s.action = some a) (x : Symbol) (d : Draft) :
    s.effect x d = (a.perform (some x.token) d).kept := by rw [effect, h]

@[simp] theorem text_token_name (s : String) : (Symbol.name s).token.text = s := rfl

@[simp] theorem text_token_string (s : String) : (Symbol.string s).token.text = s := rfl

@[simp] theorem text_token_keyword (k : Keyword) : (Symbol.keyword k).token.text = k.text := rfl

@[simp] theorem text_token_integer (n : Int) : (Symbol.integer n).token.text = toString n := rfl

section Table

variable (d : Draft) (t : Table)

theorem effect_doCreateTable :
    doCreateTable.effect (.keyword .table) d = some (d.add (.table {})) := rfl

theorem effect_tableName (s : String) :
    tableName.effect (.name s) (d.add (.table t)) = some (d.add (.table { t with name := s })) := by
  simp [effect_eq (show tableName.action = _ from rfl), Action.perform, Outcome.kept]

theorem effect_columnName (s : String) :
    columnName.effect (.name s) (d.add (.table t)) =
      some (d.add (.table (t.addColumn { name := s }))) := by
  simp [effect_eq (show columnName.action = _ from rfl), Action.perform, Outcome.kept, Table.addColumn]

theorem effect_constraintName (s : String) :
    constraintName.effect (.name s) (d.add (.table t)) =
      some (d.add (.table { t with properties := t.properties.insert constraintMark s })) := by
  simp [effect_eq (show constraintName.action = _ from rfl), Action.perform, Outcome.kept]

/-- A second key ends the run. -/
theorem effect_doPrimaryKey :
    doPrimaryKey.effect (.keyword .primary) (d.add (.table t)) =
      if t.primaryKey.isSome then none
      else some (d.add (.table { t with
        primaryKey := some ⟨t.properties.get? constraintMark, []⟩
        properties := t.properties.erase constraintMark })) := by
  rw [effect_eq (show doPrimaryKey.action = some .doPrimaryKey from rfl)]
  simp only [Action.perform, startPrimaryKey, Draft.currentTable_add, Draft.onTable_add, Draft.mapError_ok,
    bind, Except.bind]
  cases t.primaryKey <;> rfl

theorem effect_pkColumnName {k : PrimaryKey} (hk : t.primaryKey = some k) (s : String) :
    pkColumnName.effect (.name s) (d.add (.table t)) =
      some (d.add (.table { t with primaryKey := some { k with columns := k.columns ++ [s] } })) := by
  simp [effect_eq (show pkColumnName.action = _ from rfl), Action.perform, Outcome.kept,
    Draft.onPrimaryKey_add d t hk]

theorem effect_doForeignKey :
    doForeignKey.effect (.keyword .foreign) (d.add (.table t)) =
      some (d.add (.table (startForeignKey t))) := by
  simp [effect_eq (show doForeignKey.action = _ from rfl), Action.perform, Outcome.kept]

section ForeignKey

variable (k : ForeignKey) (s : String)

theorem effect_fkColumnName :
    fkColumnName.effect (.name s) (d.add (.table (t.addForeignKey k))) =
      some (d.add (.table (t.addForeignKey { k with columns := k.columns ++ [s] }))) := by
  simp [effect_eq (show fkColumnName.action = _ from rfl), Action.perform, Outcome.kept]

theorem effect_fkReferencedTableName :
    fkReferencedTableName.effect (.name s) (d.add (.table (t.addForeignKey k))) =
      some (d.add (.table (t.addForeignKey { k with table := s }))) := by
  simp [effect_eq (show fkReferencedTableName.action = _ from rfl), Action.perform, Outcome.kept]

theorem effect_fkReferencedColumnName :
    fkReferencedColumnName.effect (.name s) (d.add (.table (t.addForeignKey k))) =
      some (d.add (.table (t.addForeignKey { k with referenced := k.referenced ++ [s] }))) := by
  simp [effect_eq (show fkReferencedColumnName.action = _ from rfl), Action.perform, Outcome.kept]

end ForeignKey

end Table

section Column

variable (d : Draft) (t : Table) (c : Column)

theorem effect_typeName (s : String) :
    typeName.effect (.name s) (d.add (.table (t.addColumn c))) =
      some (d.add (.table (t.addColumn { c with type := { name := s } }))) := by
  simp [effect_eq (show typeName.action = _ from rfl), Action.perform, Outcome.kept]

theorem typeArgument_integer {n : Int} (h : IsArgument n) :
    typeArgument (Symbol.integer n).token = .ok (argument n) := by
  obtain ⟨m, rfl⟩ := Int.eq_ofNat_of_zero_le h.1
  have hm : m < UInt32.size := by
    have := h.2
    simp only [UInt32.size]
    omega
  exact if_pos hm

theorem typeArgument_integer_of_not {n : Int} (h : ¬IsArgument n) :
    ∃ e, typeArgument (Symbol.integer n).token = .error e := by
  cases n with
  | ofNat m =>
    have hm : ¬m < UInt32.size := by
      intro hm
      simp only [UInt32.size] at hm
      exact h ⟨Int.natCast_nonneg m, by simp; omega⟩
    exact ⟨_, if_neg hm⟩
  | negSucc m => exact ⟨_, rfl⟩

theorem kept_typeArgument (n : Int) (f : UInt32 → Column → Column) :
    (change (d.add (.table (t.addColumn c))) do
      let n ← typeArgument (← need (some (Symbol.integer n).token))
      ((d.add (.table (t.addColumn c))).onColumn (f n)).mapError .draft).kept =
      if IsArgument n then some (d.add (.table (t.addColumn (f (argument n) c)))) else none := by
  have hneed : need (some (Symbol.integer n).token) = .ok (Symbol.integer n).token := rfl
  by_cases h : IsArgument n
  · simp only [hneed, bind, Except.bind, typeArgument_integer h, Draft.onColumn_add, if_pos h]
    rfl
  · obtain ⟨e, he⟩ := typeArgument_integer_of_not h
    simp only [hneed, bind, Except.bind, he, if_neg h]
    rfl

theorem effect_typeSize (n : Int) :
    typeSize.effect (.integer n) (d.add (.table (t.addColumn c))) =
      if IsArgument n then
        some (d.add (.table (t.addColumn { c with
          type := { c.type with size := some (argument n) } })))
      else none :=
  kept_typeArgument d t c n fun size c => { c with type := { c.type with size := some size } }

theorem effect_typeScale (n : Int) :
    typeScale.effect (.integer n) (d.add (.table (t.addColumn c))) =
      if IsArgument n then
        some (d.add (.table (t.addColumn { c with type := { c.type with
          size := none, precision := c.type.size, scale := some (argument n) } })))
      else none :=
  kept_typeArgument d t c n fun scale c => { c with type := { c.type with
    size := none, precision := c.type.size, scale := some scale } }

theorem effect_null : null.effect (.keyword .null) (d.add (.table (t.addColumn c))) =
    some (d.add (.table (t.addColumn { c with isNullable := true }))) := by
  simp [effect_eq (show null.action = _ from rfl), Action.perform, Outcome.kept]

theorem effect_notNull : notNull.effect (.keyword .null) (d.add (.table (t.addColumn c))) =
    some (d.add (.table (t.addColumn { c with isNullable := false }))) := by
  simp [effect_eq (show notNull.action = _ from rfl), Action.perform, Outcome.kept]

theorem effect_inlinePrimaryKey :
    inlinePrimaryKey.effect (.keyword .key) (d.add (.table (t.addColumn c))) =
      some (d.add (.table (t.addColumn { c with
        properties := c.properties.insert inlineKeyMark "" }))) := by
  simp [effect_eq (show inlinePrimaryKey.action = _ from rfl), Action.perform, Outcome.kept]

theorem effect_autoincrement :
    autoincrement.effect (.keyword .autoincrement) (d.add (.table (t.addColumn c))) =
      some (d.add (.table (t.addColumn { c with identity := some ⟨"1", "1"⟩ }))) := by
  simp [effect_eq (show autoincrement.action = _ from rfl), Action.perform, Outcome.kept]

theorem effect_defaultNull :
    defaultNull.effect (.keyword .null) (d.add (.table (t.addColumn c))) =
      some (d.add (.table (t.addColumn { c with defaultText := some "NULL" }))) := by
  simp [effect_eq (show defaultNull.action = _ from rfl), Action.perform, Outcome.kept]

theorem effect_defaultInteger (n : Int) :
    defaultInteger.effect (.integer n) (d.add (.table (t.addColumn c))) =
      some (d.add (.table (t.addColumn { c with defaultText := some (toString n) }))) := by
  simp [effect_eq (show defaultInteger.action = _ from rfl), Action.perform, Outcome.kept]

theorem effect_defaultString (s : String) :
    defaultString.effect (.string s) (d.add (.table (t.addColumn c))) =
      some (d.add (.table (t.addColumn { c with defaultText := some (quoteString s) }))) := by
  simp [effect_eq (show defaultString.action = _ from rfl), Action.perform, Outcome.kept]

theorem upper_moment (m : Moment) : Text.upper m.keyword.text = m.keyword.text := by
  cases m <;> decide +kernel

theorem effect_defaultKeyword (m : Moment) :
    defaultKeyword.effect (.keyword m.keyword) (d.add (.table (t.addColumn c))) =
      some (d.add (.table (t.addColumn { c with defaultText := some m.keyword.text }))) := by
  simp [effect_eq (show defaultKeyword.action = _ from rfl), Action.perform, Outcome.kept, upper_moment]

end Column

section Index

variable (d : Draft) (i : Index)

theorem effect_doCreateUniqueIndex : doCreateUniqueIndex.effect (.keyword .unique) d =
    some (d.add (.index { isUnique := true })) := rfl

theorem effect_doCreateIndex : doCreateIndex.effect (.keyword .index) d =
    some (d.add (.index { isUnique := false })) := rfl

theorem effect_indexName (s : String) :
    indexName.effect (.name s) (d.add (.index i)) = some (d.add (.index { i with name := s })) := by
  simp [effect_eq (show indexName.action = _ from rfl), Action.perform, Outcome.kept]

theorem effect_indexTableName (s : String) :
    indexTableName.effect (.name s) (d.add (.index i)) =
      some (d.add (.index { i with table := s })) := by
  simp [effect_eq (show indexTableName.action = _ from rfl), Action.perform, Outcome.kept]

theorem effect_indexColumnName (s : String) :
    indexColumnName.effect (.name s) (d.add (.index i)) =
      some (d.add (.index (i.addColumn { name := s }))) := by
  simp [effect_eq (show indexColumnName.action = _ from rfl), Action.perform, Outcome.kept, Index.addColumn]

theorem ofKeyword?_directionKeyword (dir : Direction) :
    Direction.ofKeyword? (directionKeyword dir).text = some dir := by
  cases dir <;> decide +kernel

theorem effect_indexColumnAscOrDesc (c : IndexColumn) (dir : Direction) :
    indexColumnAscOrDesc.effect (.keyword (directionKeyword dir)) (d.add (.index (i.addColumn c))) =
      some (d.add (.index (i.addColumn { c with direction := dir }))) := by
  simp [effect_eq (show indexColumnAscOrDesc.action = _ from rfl), Action.perform, Outcome.kept, setDirection,
    ofKeyword?_directionKeyword]

end Index

end State

end Sqlite
end DdlSchema
