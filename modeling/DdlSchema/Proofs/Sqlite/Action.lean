import DdlSchema.Proofs.Draft.Last
import DdlSchema.Proofs.Parser.Agree
import DdlSchema.Proofs.Sqlite.Symbol
import Mathlib

/-! What the actions do to a draft. They do not look at its version, they change its last clause only,
and they see no more of a token than its symbol where their nodes take it. -/
namespace DdlSchema

namespace Draft

def setVersion (v : Nat) (d : Draft) : Draft := { d with version := v }

theorem eq_setVersion {d e : Draft} (h : d.clauses = e.clauses) : e = d.setVersion e.version := by
  cases d
  cases e
  cases h
  rfl

variable (v : Nat) (d : Draft)

theorem onTable_setVersion (f : Table → Table) :
    (d.setVersion v).onTable f = (d.onTable f).map (setVersion v) := by
  unfold onTable
  change d.currentTable.bind _ = (d.currentTable.bind _).map _
  cases d.currentTable <;> rfl

theorem onIndex_setVersion (f : Index → Index) :
    (d.setVersion v).onIndex f = (d.onIndex f).map (setVersion v) := by
  unfold onIndex
  change d.currentIndex.bind _ = (d.currentIndex.bind _).map _
  cases d.currentIndex <;> rfl

theorem onColumn_setVersion (f : Column → Column) :
    (d.setVersion v).onColumn f = (d.onColumn f).map (setVersion v) := by
  unfold onColumn
  change d.currentColumn.bind _ = (d.currentColumn.bind _).map _
  cases d.currentColumn with
  | error e => rfl
  | ok c => exact onTable_setVersion v d _

theorem onPrimaryKey_setVersion (f : PrimaryKey → PrimaryKey) :
    (d.setVersion v).onPrimaryKey f = (d.onPrimaryKey f).map (setVersion v) := by
  unfold onPrimaryKey
  change d.currentPrimaryKey.bind _ = (d.currentPrimaryKey.bind _).map _
  cases d.currentPrimaryKey with
  | error e => rfl
  | ok k => exact onTable_setVersion v d _

theorem onForeignKey_setVersion (f : ForeignKey → ForeignKey) :
    (d.setVersion v).onForeignKey f = (d.onForeignKey f).map (setVersion v) := by
  unfold onForeignKey
  change d.currentForeignKey.bind _ = (d.currentForeignKey.bind _).map _
  cases d.currentForeignKey with
  | error e => rfl
  | ok k => exact onTable_setVersion v d _

theorem onIndexColumn_setVersion (f : IndexColumn → IndexColumn) :
    (d.setVersion v).onIndexColumn f = (d.onIndexColumn f).map (setVersion v) := by
  unfold onIndexColumn
  change d.currentIndexColumn.bind _ = (d.currentIndexColumn.bind _).map _
  cases d.currentIndexColumn with
  | error e => rfl
  | ok c => exact onIndex_setVersion v d _

end Draft

def Outcome.setVersion {ε : Type} (v : Nat) (o : Outcome ε) : Outcome ε :=
  ⟨o.draft.setVersion v, o.verdict⟩

namespace Sqlite

open Draft

theorem change_setVersion (v : Nat) (d : Draft) (result : Except HookError Draft) :
    change (d.setVersion v) (result.map (setVersion v)) = (change d result).setVersion v := by
  cases result <;> rfl

theorem plainly_setVersion (v : Nat) (d : Draft) (result : Except DraftError Draft) :
    plainly (d.setVersion v) (result.map (setVersion v)) = (plainly d result).setVersion v := by
  cases result <;> rfl

theorem withText_setVersion (v : Nat) (next : Option Token) (d : Draft)
    (f : String → Draft → Except DraftError Draft)
    (hf : ∀ s, f s (d.setVersion v) = (f s d).map (setVersion v)) :
    withText next (d.setVersion v) f = (withText next d f).setVersion v := by
  cases next with
  | none => rfl
  | some t =>
    change plainly _ (f t.text _) = (plainly d (f t.text d)).setVersion v
    rw [hf, plainly_setVersion]

theorem startPrimaryKey_setVersion (v : Nat) (next : Option Token) (d : Draft) :
    startPrimaryKey next (d.setVersion v) = (startPrimaryKey next d).map (setVersion v) := by
  unfold startPrimaryKey
  change (d.currentTable.mapError HookError.draft).bind _ =
    ((d.currentTable.mapError HookError.draft).bind _).map _
  cases ht : d.currentTable with
  | error e => rfl
  | ok t =>
    cases hk : t.primaryKey with
    | none =>
      simp [Except.bind, hk, onTable_setVersion]
      cases d.onTable _ <;> rfl
    | some k => simp [Except.bind, hk]; rfl

theorem resolveKey_setVersion (v : Nat) (d : Draft) :
    resolveKey (d.setVersion v) = (resolveKey d).setVersion v := by
  have ht : (d.setVersion v).currentTable = d.currentTable := rfl
  unfold resolveKey
  rw [ht]
  cases d.currentTable with
  | error e => rfl
  | ok t =>
    dsimp only
    cases markedColumns t with
    | nil => rfl
    | cons name names => cases names <;> cases t.primaryKey <;> rfl

@[simp] theorem plainly_ok (d e : Draft) : plainly d (.ok e) = ⟨e, .ok ()⟩ := rfl

@[simp] theorem withText_some (t : Token) (d : Draft)
    (f : String → Draft → Except DraftError Draft) :
    withText (some t) d f = plainly d (f t.text d) := rfl

/-- Actions neither read nor change the version. -/
theorem perform_setVersion (v : Nat) (a : Action) (next : Option Token) (d : Draft) :
    a.perform next (d.setVersion v) = (a.perform next d).setVersion v := by
  cases a with
  | doCreateTable | doCreateIndex | doCreateUniqueIndex => rfl
  | tableName | columnName | constraintName =>
    simp only [Action.perform]
    exact withText_setVersion v next d _ fun s => onTable_setVersion v d _
  | typeName | defaultInteger | defaultString | defaultKeyword =>
    simp only [Action.perform]
    exact withText_setVersion v next d _ fun s => onColumn_setVersion v d _
  | null | notNull | inlinePrimaryKey | autoincrement | defaultNull =>
    simp only [Action.perform, onColumn_setVersion, plainly_setVersion]
  | typeSize | typeScale =>
    cases next with
    | none => rfl
    | some t =>
      simp only [Action.perform, need, require, mapError_ok, bind, Except.bind]
      cases typeArgument t with
      | error e => rfl
      | ok n =>
        simp only [onColumn_setVersion]
        exact plainly_setVersion v d _
  | pkColumnName =>
    simp only [Action.perform]
    exact withText_setVersion v next d _ fun s => onPrimaryKey_setVersion v d _
  | doPrimaryKey => simp only [Action.perform, startPrimaryKey_setVersion, change_setVersion]
  | doForeignKey => simp only [Action.perform, onTable_setVersion, plainly_setVersion]
  | fkColumnName | fkReferencedTableName | fkReferencedColumnName =>
    simp only [Action.perform]
    exact withText_setVersion v next d _ fun s => onForeignKey_setVersion v d _
  | tableEnd => exact resolveKey_setVersion v d
  | indexName | indexTableName | indexColumnName =>
    simp only [Action.perform]
    exact withText_setVersion v next d _ fun s => onIndex_setVersion v d _
  | indexColumnAscOrDesc =>
    simp only [Action.perform]
    refine withText_setVersion v next d _ fun s => ?_
    unfold setDirection
    cases Direction.ofKeyword? s with
    | none => rfl
    | some direction => exact onIndexColumn_setVersion v d _

theorem act_version (a : Action) (context : Context) (d : Draft) :
    (act a context d).draft.version = d.version := by
  have h := perform_setVersion d.version a context.token d
  rw [show d.setVersion d.version = d from rfl] at h
  rw [act, h]
  rfl

theorem kept_perform_setVersion (v : Nat) (a : Action) (next : Option Token) (d : Draft) :
    (a.perform next (d.setVersion v)).kept = (a.perform next d).kept.map (setVersion v) := by
  rw [perform_setVersion]
  unfold Outcome.kept Outcome.setVersion
  dsimp only
  cases (a.perform next d).verdict <;> rfl

/-- The clauses that an action keeps hang on the clauses that it finds. -/
theorem kept_perform_clauses {d e : Draft} (h : d.clauses = e.clauses) (a : Action)
    (next : Option Token) :
    (a.perform next d).kept.map Draft.clauses = (a.perform next e).kept.map Draft.clauses := by
  rw [Draft.eq_setVersion h, kept_perform_setVersion, Option.map_map]
  rfl

/-- Whether an action does the same with two tokens, and says the same of them where it fails. -/
def Action.Agrees (a : Action) (t u : Token) : Prop :=
  ∀ d, (a.perform (some t) d).Agree HookError.toError (some t) (some u) (a.perform (some u) d)

section Agree

variable {t u : Token} (d : Draft)

theorem agree_plainly (next next' : Option Token) (result : Except DraftError Draft) :
    (plainly d result).Agree HookError.toError next next' (plainly d result) := by
  cases result with
  | ok e => exact .refl_ok _ _ _ e
  | error e => exact .of_draft _ _ e d

theorem agree_resolveKey (next next' : Option Token) :
    (resolveKey d).Agree HookError.toError next next' (resolveKey d) := by
  unfold resolveKey
  cases d.currentTable with
  | error e => exact .of_draft _ _ e d
  | ok table =>
    dsimp only
    split
    · exact .refl_ok _ _ _ _
    · exact .refl_ok _ _ _ _
    · exact .of_rejected (.conflict _ _ table.name) _

/-- The token of a key is named in errors only. -/
theorem agree_startPrimaryKey (t u : Token) :
    (change d (startPrimaryKey (some t) d)).Agree HookError.toError (some t) (some u)
      (change d (startPrimaryKey (some u) d)) := by
  unfold startPrimaryKey
  cases d.currentTable with
  | error e => exact .of_draft _ _ e d
  | ok table =>
    simp only [mapError_ok, bind, Except.bind]
    cases table.primaryKey with
    | none => exact agree_plainly d (some t) (some u) _
    | some k => exact .of_rejected (.conflictAtToken t u table.name) d

theorem typeArgument_error {e : HookError} (h : typeArgument t = .error e) :
    e = .rejected (.invalidValue t.describe t.span "type arguments must be non-negative integers") := by
  unfold typeArgument at h
  split at h
  · split at h <;> cases h
    rfl
  · cases h
    rfl

theorem agree_typeArgument (hargument : (typeArgument t).toOption = (typeArgument u).toOption)
    (f : UInt32 → Column → Column) :
    (change d do
      let n ← typeArgument (← need (some t))
      (d.onColumn (f n)).mapError .draft).Agree HookError.toError (some t) (some u)
    (change d do
      let n ← typeArgument (← need (some u))
      (d.onColumn (f n)).mapError .draft) := by
  simp only [need, require, mapError_ok, bind, Except.bind]
  cases ht : typeArgument t with
  | ok n =>
    cases hu : typeArgument u with
    | ok m =>
      rw [ht, hu] at hargument
      rw [show n = m from Option.some.inj hargument]
      exact agree_plainly d (some t) (some u) _
    | error e => rw [ht, hu] at hargument; cases hargument
  | error e =>
    cases hu : typeArgument u with
    | ok m => rw [ht, hu] at hargument; cases hargument
    | error e' =>
      rw [typeArgument_error ht, typeArgument_error hu]
      exact .of_rejected (.invalidValue t u _) d

/-- Actions see the text of a token, and whether it can be a type argument. -/
theorem agrees_of_text (htext : t.text = u.text)
    (hargument : (typeArgument t).toOption = (typeArgument u).toOption) (a : Action) :
    a.Agrees t u := by
  intro d
  cases a with
  | doCreateTable | doCreateIndex | doCreateUniqueIndex => exact .refl_ok _ _ _ _
  | typeSize | typeScale => exact agree_typeArgument d hargument _
  | doPrimaryKey => exact agree_startPrimaryKey d t u
  | tableEnd => exact agree_resolveKey d _ _
  | _ =>
    simp only [Action.perform, withText_some, htext]
    exact agree_plainly d _ _ _

/-- Whether an argument is refused hangs on the kind of its token. -/
theorem toOption_typeArgument (h : t.kind = u.kind) :
    (typeArgument t).toOption = (typeArgument u).toOption := by
  unfold typeArgument
  rw [h]
  split
  · split <;> rfl
  · rfl

/-- Texts that differ in case only have one text in capitals. -/
theorem upper_congr {s t : String} (h : Text.lower s = Text.lower t) : Text.upper s = Text.upper t := by
  have hupper (s : String) : Text.upper s = Text.upper (Text.lower s) := by
    simp [Text.upper, Text.lower, Function.comp_def, Char.toUpper_toLower_eq_toUpper]
  rw [hupper s, h, ← hupper]

/-- The actions of keyword nodes, which see their keyword in any case alike. -/
def Action.foldsCase (k : Keyword) : Action → Bool
  | doCreateTable | doCreateUniqueIndex | doCreateIndex | null | notNull | inlinePrimaryKey => true
  | autoincrement | defaultNull | defaultKeyword | doPrimaryKey | doForeignKey => true
  | indexColumnAscOrDesc => k == .asc || k == .desc
  | _ => false

theorem agrees_of_foldsCase {a : Action} {k : Keyword} (ha : a.foldsCase k = true)
    (ht : Text.lower t.text = Text.lower k.text) (hu : Text.lower u.text = Text.lower k.text) :
    a.Agrees t u := by
  intro d
  cases a with
  | doCreateTable | doCreateIndex | doCreateUniqueIndex => exact .refl_ok _ _ _ _
  | null | notNull | inlinePrimaryKey | autoincrement | defaultNull | doForeignKey =>
    exact agree_plainly d _ _ _
  | defaultKeyword =>
    simp only [Action.perform, withText_some, upper_congr (ht.trans hu.symm)]
    exact agree_plainly d _ _ _
  | indexColumnAscOrDesc =>
    have hk : k = .asc ∨ k = .desc := by simpa [Action.foldsCase] using ha
    obtain ⟨direction, hdirection⟩ : ∃ direction, Direction.ofKeyword? k.text = some direction := by
      rcases hk with rfl | rfl <;> exact ⟨_, rfl⟩
    have hread {x : Token} (hx : Text.lower x.text = Text.lower k.text) :
        Direction.ofKeyword? x.text = some direction := by
      rw [← hdirection]
      unfold Direction.ofKeyword? Text.sameWord
      rw [hx]
    simp only [Action.perform, withText_some, setDirection, hread ht, hread hu]
    exact agree_plainly d _ _ _
  | doPrimaryKey => exact agree_startPrimaryKey d t u
  | _ => cases ha

end Agree

theorem IsIdentifier.text_eq {t : Token} {s : String} (h : IsIdentifier t s) : t.text = s := by
  rcases h with hk | ⟨hk | hk, -⟩ <;> simp [Token.text, hk, TokenKind.text]

theorem IsIdentifier.toOption_typeArgument {t : Token} {s : String} (h : IsIdentifier t s) :
    (typeArgument t).toOption = none := by
  rcases h with hk | ⟨hk | hk, -⟩ <;> simp only [typeArgument, hk] <;> rfl

/-- Nodes with an action that reads the text of a keyword see it in any case alike. -/
theorem State.foldsCase_of_keyword {s : State} {a : Action} {k : Keyword} (ha : s.action = some a)
    (hs : s.matcher.takes (.keyword k) = true) : a.foldsCase k = true := by
  have hall : ∀ s ∈ State.all, ∀ k ∈ Keyword.all, s.matcher.takes (.keyword k) = true →
      s.action.all (Action.foldsCase k) = true := by decide +kernel
  have h := hall s s.mem_all k k.mem_all hs
  rwa [ha] at h

/-- An action does the same for all tokens of a symbol that its node takes. -/
theorem agrees_of_ofToken {s : State} {t u : Token} (ht : s.matcher.takes (.ofToken t) = true)
    (htu : Symbol.ofToken t = Symbol.ofToken u) {a : Action} (ha : s.action = some a) :
    a.Agrees t u := by
  have hother : Symbol.ofToken t ≠ .other := by
    rintro hx
    rw [hx] at ht
    cases hm : s.matcher <;> simp [hm, Matcher.takes] at ht
  have hmatch := Symbol.matches_ofToken hother
  have hmatch' := Symbol.matches_ofToken (htu ▸ hother)
  rw [← htu] at hmatch'
  cases hx : Symbol.ofToken t with
  | keyword k =>
    rw [hx] at ht hmatch hmatch'
    obtain ⟨w, hw, hk⟩ := hmatch
    obtain ⟨w', hw', hk'⟩ := hmatch'
    refine agrees_of_foldsCase (State.foldsCase_of_keyword ha ht) ?_ ?_
    · rw [Token.text, hw]
      exact hk
    · rw [Token.text, hw']
      exact hk'
  | name n =>
    rw [hx] at hmatch hmatch'
    exact agrees_of_text (hmatch.text_eq.trans hmatch'.text_eq.symm)
      (hmatch.toOption_typeArgument.trans hmatch'.toOption_typeArgument.symm) a
  | integer n | string n | opening | closing | comma =>
    rw [hx] at hmatch hmatch'
    have hkind : t.kind = u.kind := Eq.trans hmatch hmatch'.symm
    exact agrees_of_text (congrArg TokenKind.text hkind) (toOption_typeArgument hkind) a
  | other => exact absurd hx hother

theorem kept_perform_token {s : State} {t : Token} (ht : s.matcher.takes (.ofToken t) = true)
    {a : Action} (ha : s.action = some a) (d : Draft) :
    (a.perform (some t) d).kept = (a.perform (some (Symbol.ofToken t).token) d).kept :=
  (agrees_of_ofToken ht (Symbol.ofToken_token _).symm ha d).kept_eq

end Sqlite
end DdlSchema
