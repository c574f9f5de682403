import DdlSchema.Proofs.Sqlite.Action
import DdlSchema.Proofs.Sqlite.Transition

/-! What the last clause of a draft holds at each state, so that no action finds the draft in a shape
that it cannot take. -/
namespace DdlSchema
namespace Sqlite

/-- A clause in the making. -/
inductive Stage where
  | any
  | table
  | column
  | primaryKey
  | foreignKey
  | index
  | indexColumn
deriving DecidableEq, Repr

namespace Stage

/-- Whether a clause has come to the stage. -/
def Holds : Stage → Clause → Prop
  | any, _ => True
  | table, c => ∃ t, c = .table t
  | column, c => ∃ t k, c = .table (Table.addColumn t k)
  | primaryKey, c => ∃ t k, c = .table t ∧ t.primaryKey = some k
  | foreignKey, c => ∃ t k, c = .table (Table.addForeignKey t k)
  | index, c => ∃ i, c = .index i
  | indexColumn, c => ∃ i k, c = .index (Index.addColumn i k)

/-- Whether clauses of the first stage are of the second one, too. -/
def covers : Stage → Stage → Bool
  | _, any => true
  | column, table => true
  | primaryKey, table => true
  | foreignKey, table => true
  | indexColumn, index => true
  | s, t => s == t

theorem Holds.of_covers {s t : Stage} {c : Clause} (h : s.Holds c) (hst : s.covers t = true) :
    t.Holds c := by
  cases t with
  | any => trivial
  | table =>
    cases s with
    | table => exact h
    | column => obtain ⟨t, k, rfl⟩ := h; exact ⟨_, rfl⟩
    | primaryKey => obtain ⟨t, k, rfl, -⟩ := h; exact ⟨_, rfl⟩
    | foreignKey => obtain ⟨t, k, rfl⟩ := h; exact ⟨_, rfl⟩
    | _ => cases hst
  | index =>
    cases s with
    | index => exact h
    | indexColumn => obtain ⟨i, k, rfl⟩ := h; exact ⟨_, rfl⟩
    | _ => cases hst
  | _ => cases s <;> first | exact h | cases hst

end Stage

namespace Action

/-- The stage that an action asks for; none where it starts a clause. -/
def needs : Action → Option Stage
  | doCreateTable | doCreateUniqueIndex | doCreateIndex => none
  | tableName | columnName | constraintName | doPrimaryKey | doForeignKey | tableEnd => some .table
  | typeName | typeSize | typeScale | null | notNull | inlinePrimaryKey => some .column
  | autoincrement | defaultNull | defaultInteger | defaultString | defaultKeyword => some .column
  | pkColumnName => some .primaryKey
  | fkColumnName | fkReferencedTableName | fkReferencedColumnName => some .foreignKey
  | indexName | indexTableName | indexColumnName => some .index
  | indexColumnAscOrDesc => some .indexColumn

/-- The stage that an action leaves. -/
def gives : Action → Stage
  | doCreateTable | tableName | constraintName | tableEnd => .table
  | columnName | typeName | typeSize | typeScale | null | notNull | inlinePrimaryKey => .column
  | autoincrement | defaultNull | defaultInteger | defaultString | defaultKeyword => .column
  | doPrimaryKey | pkColumnName => .primaryKey
  | doForeignKey | fkColumnName | fkReferencedTableName | fkReferencedColumnName => .foreignKey
  | doCreateUniqueIndex | doCreateIndex | indexName | indexTableName => .index
  | indexColumnName | indexColumnAscOrDesc => .indexColumn

/-- Whether an action finds the token that it asks for. -/
def Serves (a : Action) (next : Option Token) : Prop :=
  match a with
  | tableEnd => True
  | indexColumnAscOrDesc => ∃ t ∈ next, (Direction.ofKeyword? t.text).isSome
  | _ => next.isSome

end Action

/-- What a change makes of a draft: it puts a clause at the end, the same for every draft before it, and
either brings it to a stage or rejects the statement. -/
def Settles (g : Stage) (f : Draft → Outcome HookError) : Prop :=
  ∃ c v, (∀ d, f d = ⟨d.add c, v⟩) ∧ (v = .ok () ∧ g.Holds c ∨ ∃ e, v = .error (.rejected e))

theorem Settles.ok {g : Stage} {c : Clause} (h : g.Holds c) :
    Settles g fun d => ⟨d.add c, .ok ()⟩ := ⟨c, .ok (), fun _ => rfl, .inl ⟨rfl, h⟩⟩

theorem Settles.rejected (g : Stage) (c : Clause) (e : ParseError) :
    Settles g fun d => ⟨d.add c, .error (.rejected e)⟩ := ⟨c, _, fun _ => rfl, .inr ⟨e, rfl⟩⟩

theorem Settles.of_covers {g g' : Stage} {f : Draft → Outcome HookError} (h : Settles g f)
    (hcovers : g.covers g' = true) : Settles g' f := by
  obtain ⟨c, v, hf, ⟨hv, hholds⟩ | hv⟩ := h
  · exact ⟨c, v, hf, .inl ⟨hv, hholds.of_covers hcovers⟩⟩
  · exact ⟨c, v, hf, .inr hv⟩

theorem Settles.of_start {a : Action} (ha : a.needs = none) (next : Option Token) :
    Settles a.gives (a.perform next) := by
  cases a <;> first | exact .ok ⟨_, rfl⟩ | cases ha

theorem typeArgument_cases (token : Token) :
    (∃ n, typeArgument token = .ok n) ∨ ∃ e, typeArgument token = .error (.rejected e) := by
  unfold typeArgument
  split
  · split
    · exact .inl ⟨_, rfl⟩
    · exact .inr ⟨_, rfl⟩
  · exact .inr ⟨_, rfl⟩

theorem settles_typeArgument (t : Table) (c : Column) (token : Token)
    (f : UInt32 → Column → Column) :
    Settles .column (fun d => change (d.add (.table (t.addColumn c))) do
      let n ← typeArgument (← need (some token))
      ((d.add (.table (t.addColumn c))).onColumn (f n)).mapError .draft) := by
  have hneed : need (some token) = .ok token := rfl
  rcases typeArgument_cases token with ⟨n, hn⟩ | ⟨e, he⟩
  · simp only [hneed, hn, bind, Except.bind, Draft.onColumn_add]
    exact .ok ⟨_, _, rfl⟩
  · simp only [hneed, he, bind, Except.bind]
    exact .rejected _ _ e

theorem settles_startPrimaryKey (t : Table) (next : Option Token) :
    Settles .primaryKey fun d =>
      change (d.add (.table t)) (startPrimaryKey next (d.add (.table t))) := by
  unfold startPrimaryKey
  simp only [Draft.currentTable_add, Draft.onTable_add, Draft.mapError_ok, bind, Except.bind]
  cases hk : t.primaryKey with
  | none => exact .ok ⟨_, _, rfl, rfl⟩
  | some k => exact .rejected _ _ _

theorem settles_resolveKey (t : Table) :
    Settles .table fun d => resolveKey (d.add (.table t)) := by
  unfold resolveKey
  simp only [Draft.currentTable_add, Draft.replaceLast_add]
  split
  · exact .ok ⟨_, rfl⟩
  · exact .ok ⟨_, rfl⟩
  · exact .rejected _ _ _

/-- An action on a clause of its stage settles it. -/
theorem perform_settles {a : Action} {g : Stage} (ha : a.needs = some g) {next : Option Token}
    (hnext : a.Serves next) {c : Clause} (hc : g.Holds c) :
    Settles a.gives fun d => a.perform next (d.add c) := by
  cases a with
  | doCreateTable | doCreateUniqueIndex | doCreateIndex => cases ha
  | tableEnd =>
    cases ha
    obtain ⟨t, rfl⟩ := hc
    exact settles_resolveKey t
  | doPrimaryKey =>
    cases ha
    obtain ⟨t, rfl⟩ := hc
    exact settles_startPrimaryKey t next
  | doForeignKey =>
    cases ha
    obtain ⟨t, rfl⟩ := hc
    simp only [Action.perform, Draft.onTable_add, plainly_ok]
    exact .ok ⟨{ t with properties := t.properties.erase constraintMark }, _, rfl⟩
  | tableName | constraintName =>
    cases ha
    obtain ⟨token, rfl⟩ := Option.isSome_iff_exists.1 hnext
    obtain ⟨t, rfl⟩ := hc
    simp only [Action.perform, withText_some, Draft.onTable_add, plainly_ok]
    exact .ok ⟨_, rfl⟩
  | columnName =>
    cases ha
    obtain ⟨token, rfl⟩ := Option.isSome_iff_exists.1 hnext
    obtain ⟨t, rfl⟩ := hc
    simp only [Action.perform, withText_some, Draft.onTable_add, plainly_ok]
    exact .ok ⟨_, _, rfl⟩
  | typeSize | typeScale =>
    cases ha
    obtain ⟨token, rfl⟩ := Option.isSome_iff_exists.1 hnext
    obtain ⟨t, column, rfl⟩ := hc
    exact settles_typeArgument t column token _
  | typeName | defaultInteger | defaultString | defaultKeyword =>
    cases ha
    obtain ⟨token, rfl⟩ := Option.isSome_iff_exists.1 hnext
    obtain ⟨t, column, rfl⟩ := hc
    simp only [Action.perform, withText_some, Draft.onColumn_add, plainly_ok]
    exact .ok ⟨_, _, rfl⟩
  | null | notNull | inlinePrimaryKey | autoincrement | defaultNull =>
    cases ha
    obtain ⟨t, column, rfl⟩ := hc
    simp only [Action.perform, Draft.onColumn_add, plainly_ok]
    exact .ok ⟨_, _, rfl⟩
  | pkColumnName =>
    cases ha
    obtain ⟨token, rfl⟩ := Option.isSome_iff_exists.1 hnext
    obtain ⟨t, k, rfl, hk⟩ := hc
    simp only [Action.perform, withText_some, fun d => Draft.onPrimaryKey_add d t hk, plainly_ok]
    exact .ok ⟨_, _, rfl, rfl⟩
  | fkColumnName | fkReferencedTableName | fkReferencedColumnName =>
    cases ha
    obtain ⟨token, rfl⟩ := Option.isSome_iff_exists.1 hnext
    obtain ⟨t, k, rfl⟩ := hc
    simp only [Action.perform, withText_some, Draft.onForeignKey_add, plainly_ok]
    exact .ok ⟨_, _, rfl⟩
  | indexName | indexTableName =>
    cases ha
    obtain ⟨token, rfl⟩ := Option.isSome_iff_exists.1 hnext
    obtain ⟨i, rfl⟩ := hc
    simp only [Action.perform, withText_some, Draft.onIndex_add, plainly_ok]
    exact .ok ⟨_, rfl⟩
  | indexColumnName =>
    cases ha
    obtain ⟨token, rfl⟩ := Option.isSome_iff_exists.1 hnext
    obtain ⟨i, rfl⟩ := hc
    simp only [Action.perform, withText_some, Draft.onIndex_add, plainly_ok]
    exact .ok ⟨_, _, rfl⟩
  | indexColumnAscOrDesc =>
    cases ha
    obtain ⟨token, rfl, hdirection⟩ := hnext
    obtain ⟨direction, hdirection⟩ := Option.isSome_iff_exists.1 hdirection
    obtain ⟨i, column, rfl⟩ := hc
    simp only [Action.perform, withText_some, setDirection, hdirection, Draft.onIndexColumn_add, plainly_ok]
    exact .ok ⟨_, _, rfl⟩

namespace State

/-- The stage of the draft when a state has been entered; none before a clause is started. -/
def stage : State → Option Stage
  | root | create => none
  | doCreateTable | tableIf | tableIfNot | tableIfExists | tableName | tableOpen => some .table
  | columnName | typeName | typeOpen | typeSize | typeClose | typeComma | typeScale => some .column
  | columnAttributes | null | not | notNull | inlinePrimary | inlinePrimaryKey => some .column
  | autoincrement | default | defaultNull | defaultInteger | defaultString => some .column
  | defaultKeyword | columnComma => some .column
  | constraint | constraintName | constraintEnd | constraintComma => some .table
  | tableClose | tableEnd => some .table
  | doPrimaryKey | pkKey | pkOpen | pkColumnName | pkAscOrDesc | pkColumnEnd => some .primaryKey
  | pkComma | pkClose => some .primaryKey
  | doForeignKey | fkKey | fkOpen | fkColumnName | fkComma | fkClose => some .foreignKey
  | fkReferences | fkReferencedTableName | fkReferencedOpen => some .foreignKey
  | fkReferencedColumnName | fkReferencedComma | fkReferencedClose => some .foreignKey
  | doCreateUniqueIndex | uniqueIndex | doCreateIndex | indexStart => some .index
  | indexIf | indexIfNot | indexIfExists | indexName | indexOn | indexTableName => some .index
  | indexOpen => some .index
  | indexColumnName | indexColumnAscOrDesc | indexColumnEnd | indexComma => some .indexColumn
  | indexClose => some .indexColumn
  | finish => some .any

/-- Whether the stages fit along the edge from one state to another. -/
def stageFits (s c : State) : Bool :=
  match c.action, s.stage, c.stage with
  | none, none, none => true
  | none, some g, some h => g.covers h
  | some a, none, some h => a.needs == none && a.gives.covers h
  | some a, some g, some h => a.needs.any (g.covers ·) && a.gives.covers h
  | _, _, _ => false

theorem stageFits_of_mem {s c : State} (h : c ∈ s.next) : s.stageFits c = true := by
  have hall : ∀ s ∈ all, ∀ c ∈ s.next, s.stageFits c = true := by decide +kernel
  exact hall s s.mem_all c h

end State

/-- What a statement that stands at a state has done to the draft before it: nothing yet, or it has put a
clause of the stage at the end. -/
def StandsAt (s : State) (f : Draft → Draft) : Prop :=
  match s.stage with
  | none => f = id
  | some g => ∃ c, g.Holds c ∧ f = fun d => d.add c

namespace StandsAt

variable {s c : State} {f : Draft → Draft}

theorem eq_id (hf : StandsAt s f) (hs : s.stage = none) : f = id := by
  simpa only [StandsAt, hs] using hf

theorem exists_clause (hf : StandsAt s f) {g : Stage} (hs : s.stage = some g) :
    ∃ clause, g.Holds clause ∧ f = fun d => d.add clause := by
  simpa only [StandsAt, hs] using hf

theorem of_holds {g : Stage} (hs : s.stage = some g) {clause : Clause} (h : g.Holds clause) :
    StandsAt s fun d => d.add clause := by
  simp only [StandsAt, hs]
  exact ⟨clause, h, rfl⟩

theorem eq_id_or_add (hf : StandsAt s f) : f = id ∨ ∃ clause, f = fun d => d.add clause := by
  cases hs : s.stage with
  | none => exact .inl (hf.eq_id hs)
  | some g =>
    obtain ⟨clause, -, rfl⟩ := hf.exists_clause hs
    exact .inr ⟨clause, rfl⟩

theorem isPrefix (hf : StandsAt s f) (d : Draft) : d.clauses <+: (f d).clauses := by
  rcases hf.eq_id_or_add with rfl | ⟨clause, rfl⟩
  · exact List.prefix_rfl
  · exact List.prefix_append _ _

theorem tick (hf : StandsAt s f) (d : Draft) : (f d).tick = f d.tick := by
  rcases hf.eq_id_or_add with rfl | ⟨clause, rfl⟩ <;> rfl

/-- A state without an action takes the statement over as it is. -/
theorem of_plain (hf : StandsAt s f) (hfits : s.stageFits c = true) (hc : c.action = none) :
    StandsAt c f := by
  unfold State.stageFits at hfits
  cases hs : s.stage with
  | none =>
    cases hg : c.stage with
    | none => simpa only [StandsAt, hg] using hf.eq_id hs
    | some g =>
      simp only [hc, hs, hg] at hfits
      cases hfits
  | some g =>
    cases hg' : c.stage with
    | none =>
      simp only [hc, hs, hg'] at hfits
      cases hfits
    | some g' =>
      simp only [hc, hs, hg'] at hfits
      obtain ⟨clause, hholds, rfl⟩ := hf.exists_clause hs
      exact .of_holds hg' (hholds.of_covers hfits)

/-- The action of a state brings the statement to the stage of the state, or rejects it. -/
theorem settles (hf : StandsAt s f) (hfits : s.stageFits c = true) {a : Action}
    (hc : c.action = some a) {next : Option Token} (hnext : a.Serves next) :
    ∃ g, c.stage = some g ∧ Settles g fun d => a.perform next (f d) := by
  unfold State.stageFits at hfits
  cases hg' : c.stage with
  | none => cases hs : s.stage <;> simp only [hc, hs, hg'] at hfits <;> cases hfits
  | some g' =>
    refine ⟨g', rfl, ?_⟩
    cases hs : s.stage with
    | none =>
      simp only [hc, hs, hg', Bool.and_eq_true, beq_iff_eq] at hfits
      obtain ⟨hneeds, hgives⟩ := hfits
      rw [hf.eq_id hs]
      exact (Settles.of_start hneeds next).of_covers hgives
    | some g =>
      simp only [hc, hs, hg', Bool.and_eq_true, Option.any_eq_true] at hfits
      obtain ⟨⟨need, hneeds, hcovers⟩, hgives⟩ := hfits
      obtain ⟨clause, hholds, rfl⟩ := hf.exists_clause hs
      exact (perform_settles hneeds hnext (hholds.of_covers hcovers)).of_covers hgives

end StandsAt

end Sqlite
end DdlSchema
