import DdlSchema.Proofs.Catalog.Sort

/-! Reading a catalog with its errors put aside, compared with reading it up to its first error, and with
reading what is left of it without the statements at fault. -/
namespace DdlSchema
namespace Catalog

section Agreement

variable {α β γ : Type}

/-- How a reading that puts errors aside goes together with one that stops at its first error. The error
put aside first is the one that the other reading ends with. A failure can be overtaken by the error of
a statement that stands before it. -/
inductive Agrees : Except ExplorerError (β × List ExplorerError) → Except ExplorerError β → Prop where
  | complete (b : β) : Agrees (.ok (b, [])) (.ok b)
  | skipping (b : β) {e : ExplorerError} (more : List ExplorerError)
    (he : e.isStatementError = true) : Agrees (.ok (b, e :: more)) (.error e)
  | failing (e : ExplorerError) : Agrees (.error e) (.error e)
  | overtaken {e e' : ExplorerError} (he : e.isStatementError = false)
    (he' : e'.isStatementError = true) : Agrees (.error e) (.error e')

theorem Agrees.map {lenient : Except ExplorerError (β × List ExplorerError)}
    {strict : Except ExplorerError β} (h : Agrees lenient strict) (f : β → γ) :
    Agrees (lenient.map fun r => (f r.1, r.2)) (strict.map f) := by
  cases h with
  | complete b => exact .complete (f b)
  | skipping b more he => exact .skipping (f b) more he
  | failing e => exact .failing e
  | overtaken he he' => exact .overtaken he he'

variable {read : α → Except ExplorerError (β × List ExplorerError)}

theorem salvage_cons_ok {a : α} {b : β} {skipped : List ExplorerError}
    (h : read a = .ok (b, skipped)) (as : List α) :
    salvage read (a :: as) = (salvage read as).map fun r => (b :: r.1, skipped ++ r.2) := by
  rw [salvage, h]
  dsimp only
  cases salvage read as <;> rfl

theorem salvage_cons_rejected {a : α} {e : ExplorerError} (h : read a = .error e)
    (he : e.isStatementError = true) (as : List α) :
    salvage read (a :: as) = (salvage read as).map fun r => (r.1, e :: r.2) := by
  rw [salvage, h]
  dsimp only
  rw [if_pos he]
  cases salvage read as <;> rfl

theorem salvage_cons_failed {a : α} {e : ExplorerError} (h : read a = .error e)
    (he : e.isStatementError = false) (as : List α) : salvage read (a :: as) = .error e := by
  rw [salvage, h]
  dsimp only
  rw [if_neg (by simp [he])]

/-- A list is salvaged with its first item, or without it where a statement error puts it aside. -/
theorem salvage_cons_cases {a : α} {as : List α} {bs : List β} {skipped : List ExplorerError}
    (h : salvage read (a :: as) = .ok (bs, skipped)) :
    (∃ b front bs' more, read a = .ok (b, front) ∧ salvage read as = .ok (bs', more) ∧
      bs = b :: bs') ∨
    ∃ e more, read a = .error e ∧ e.isStatementError = true ∧ salvage read as = .ok (bs, more) := by
  cases ha : read a with
  | ok r =>
    rw [salvage_cons_ok ha] at h
    cases hs : salvage read as with
    | error e => rw [hs] at h; cases h
    | ok r' =>
      rw [hs] at h
      obtain ⟨rfl, -⟩ := Prod.mk.inj (Except.ok.inj h)
      exact .inl ⟨r.1, r.2, r'.1, r'.2, rfl, rfl, rfl⟩
  | error e =>
    cases he : e.isStatementError with
    | false => rw [salvage_cons_failed ha he] at h; cases h
    | true =>
      rw [salvage_cons_rejected ha he] at h
      cases hs : salvage read as with
      | error e => rw [hs] at h; cases h
      | ok r' =>
        rw [hs] at h
        obtain ⟨rfl, -⟩ := Prod.mk.inj (Except.ok.inj h)
        exact .inr ⟨e, r'.2, rfl, he, rfl⟩

/-- What ends the reading is no statement error. -/
theorem isStatementError_of_salvage {as : List α} {e : ExplorerError}
    (h : salvage read as = .error e) : e.isStatementError = false := by
  induction as with
  | nil => cases h
  | cons a as ih =>
    have hrest {f : List β × List ExplorerError → List β × List ExplorerError}
        (hmap : (salvage read as).map f = .error e) : e.isStatementError = false := by
      cases hs : salvage read as with
      | ok r => rw [hs] at hmap; cases hmap
      | error e' =>
        rw [hs] at hmap
        obtain rfl : e' = e := Except.error.inj hmap
        exact ih hs
    cases ha : read a with
    | ok r => exact hrest ((salvage_cons_ok ha as).symm.trans h)
    | error e' =>
      cases he' : e'.isStatementError with
      | true => exact hrest ((salvage_cons_rejected ha he' as).symm.trans h)
      | false =>
        obtain rfl : e' = e := Except.error.inj ((salvage_cons_failed ha he' as).symm.trans h)
        exact he'

/-- What is put aside first is what the reading up to the first error ends with. -/
theorem agrees_of_skipped {lenient : Except ExplorerError (List β × List ExplorerError)}
    (hends : ∀ e, lenient = .error e → e.isStatementError = false) (f : List β → γ)
    {e : ExplorerError} (more : List ExplorerError) (he : e.isStatementError = true) :
    Agrees (lenient.map fun r => (f r.1, e :: more ++ r.2)) (.error e) := by
  cases lenient with
  | ok r => exact .skipping (f r.1) (more ++ r.2) he
  | error e' => exact .overtaken (hends e' rfl) he

/-- Where the readings of the items agree, so do those of the list. -/
theorem Agrees.salvage {strict : α → Except ExplorerError β} {as : List α}
    (h : ∀ a ∈ as, Agrees (read a) (strict a)) :
    Agrees (Catalog.salvage read as) (as.mapM strict) := by
  induction as with
  | nil => exact .complete []
  | cons a as ih =>
    have hrest := ih fun a' ha' => h a' (List.mem_cons_of_mem a ha')
    have hends (e : ExplorerError) : Catalog.salvage read as = .error e →
        e.isStatementError = false := isStatementError_of_salvage
    have hfront := h a List.mem_cons_self
    rw [List.mapM_cons]
    generalize hlenient : read a = lenient at hfront
    generalize strict a = front at hfront
    cases hfront with
    | complete b =>
      rw [salvage_cons_ok hlenient]
      have hmap := hrest.map (b :: ·)
      cases hs : as.mapM strict with
      | ok bs => rw [hs] at hmap; exact hmap
      | error e => rw [hs] at hmap; exact hmap
    | skipping b more he =>
      rw [salvage_cons_ok hlenient]
      exact agrees_of_skipped hends (b :: ·) more he
    | failing e =>
      cases he : e.isStatementError with
      | true =>
        rw [salvage_cons_rejected hlenient he]
        exact agrees_of_skipped hends id [] he
      | false =>
        rw [salvage_cons_failed hlenient he]
        exact .failing e
    | overtaken he he' =>
      rw [salvage_cons_failed hlenient he]
      exact .overtaken he he'

end Agreement

section Tables

variable {c : Catalog} {e : Entry} {t : Table} {es : List Entry}

/-- The indexes that can be read, and the errors of the others. -/
def salvageIndexes (es : List Entry) : Except ExplorerError (List Index × List ExplorerError) :=
  salvage (fun e => return (← e.readIndex, [])) es

theorem indexesOf_eq (hes : c.indexEntries e.name = .ok es) :
    c.indexesOf e.name = es.mapM Entry.readIndex := by
  rw [indexesOf, hes]
  rfl

theorem load_false (ht : e.readTable = .ok t) : c.load false e = .ok t := by
  rw [load, ht]
  rfl

theorem load_true (ht : e.readTable = .ok t) :
    c.load true e = (c.indexesOf e.name).map fun indexes => { t with indexes } := by
  rw [load, ht]
  cases c.indexesOf e.name <;> rfl

theorem salvageTable_true (ht : e.readTable = .ok t) (hes : c.indexEntries e.name = .ok es) :
    c.salvageTable true e = (salvageIndexes es).map fun r => ({ t with indexes := r.1 }, r.2) := by
  rw [salvageTable, ht]
  change (c.indexEntries e.name >>= fun es => salvageIndexes es >>= fun r =>
    Except.ok ({ t with indexes := r.1 }, r.2)) = _
  rw [hes]
  change (salvageIndexes es >>= fun r => Except.ok ({ t with indexes := r.1 }, r.2)) = _
  cases salvageIndexes es <;> rfl

/-- A table cannot be read, is read without its indexes, or is read with what becomes of them. -/
theorem salvageTable_cases (c : Catalog) (withIndexes : Bool) (e : Entry) :
    (∃ x, e.readTable = .error x ∧ c.salvageTable withIndexes e = .error x ∧
      c.load withIndexes e = .error x) ∨
    ∃ t, e.readTable = .ok t ∧
      (withIndexes = false ∧ c.salvageTable withIndexes e = .ok (t, []) ∨
      (∃ x, c.indexEntries e.name = .error x ∧ c.salvageTable withIndexes e = .error x ∧
        c.load withIndexes e = .error x) ∨
      ∃ es, withIndexes = true ∧ c.indexEntries e.name = .ok es ∧
        c.salvageTable withIndexes e =
          (salvageIndexes es).map fun r => ({ t with indexes := r.1 }, r.2)) := by
  cases ht : e.readTable with
  | error x =>
    refine .inl ⟨x, rfl, ?_, ?_⟩
    · rw [salvageTable, ht]
      rfl
    · rw [load, ht]
      rfl
  | ok t =>
    refine .inr ⟨t, rfl, ?_⟩
    cases withIndexes with
    | false =>
      refine .inl ⟨rfl, ?_⟩
      rw [salvageTable, ht]
      rfl
    | true =>
      cases hes : c.indexEntries e.name with
      | error x =>
        refine .inr (.inl ⟨x, rfl, ?_, ?_⟩)
        · rw [salvageTable, ht, hes]
          rfl
        · rw [load, indexesOf, ht, hes]
          rfl
      | ok es => exact .inr (.inr ⟨es, rfl, rfl, salvageTable_true ht hes⟩)

theorem salvageIndexes_agrees (es : List Entry) :
    Agrees (salvageIndexes es) (es.mapM Entry.readIndex) := by
  refine Agrees.salvage fun e _ => ?_
  cases e.readIndex with
  | ok i => exact .complete i
  | error x => exact .failing x

theorem salvageTable_agrees (c : Catalog) (withIndexes : Bool) (e : Entry) :
    Agrees (c.salvageTable withIndexes e) (c.load withIndexes e) := by
  rcases salvageTable_cases c withIndexes e with
    ⟨x, -, hsalvage, hload⟩ | ⟨t, ht, ⟨rfl, h⟩ | ⟨x, -, hsalvage, hload⟩ | ⟨es, rfl, hes, h⟩⟩
  · rw [hsalvage, hload]
    exact .failing x
  · rw [h, load_false ht]
    exact .complete t
  · rw [hsalvage, hload]
    exact .failing x
  · rw [h, load_true ht, indexesOf_eq hes]
    exact (salvageIndexes_agrees es).map fun indexes => { t with indexes }

theorem tablesLenient_agrees_tables (c : Catalog) (withIndexes : Bool) :
    Agrees (c.tablesLenient withIndexes) (c.tables withIndexes none) := by
  unfold tablesLenient tables
  cases c.entriesOf .table with
  | error x => exact .failing x
  | ok es =>
    have htables : Agrees (salvage (c.salvageTable withIndexes) es)
        (es.mapM (c.load withIndexes)) :=
      .salvage fun e _ => salvageTable_agrees c withIndexes e
    have hbind : (es.mapM (c.load withIndexes) >>= fun ts => .ok ts) = es.mapM (c.load withIndexes) :=
      bind_pure _
    rw [← hbind] at htables
    exact htables

end Tables

section Accepted

/-- Whether a reading ends with a statement error. -/
def rejects {α : Type} : Except ExplorerError α → Bool
  | .ok _ => false
  | .error e => e.isStatementError

/-- Whether the statement of an entry is at fault. -/
def Entry.isRejected (e : Entry) : Bool :=
  match Sqlite.parse e.sql with
  | .ok _ => false
  | .error x => x.isStatementError

/-- The catalog without the entries whose statements are at fault. -/
def accepted (c : Catalog) : Catalog := ⟨c.entries.map (List.filter (!·.isRejected))⟩

theorem Entry.rejects_clause (e : Entry) : rejects e.clause = e.isRejected := by
  unfold Entry.clause Entry.isRejected
  cases Sqlite.parse e.sql with
  | error x => rfl
  | ok cs =>
    rcases cs with _ | ⟨c, _ | ⟨c', cs⟩⟩ <;> rfl

theorem Entry.rejects_readTable (e : Entry) : rejects e.readTable = e.isRejected := by
  rw [← e.rejects_clause, Entry.readTable]
  cases e.clause with
  | error x => rfl
  | ok c => cases c <;> rfl

theorem Entry.rejects_readIndex (e : Entry) : rejects e.readIndex = e.isRejected := by
  rw [← e.rejects_clause, Entry.readIndex]
  cases e.clause with
  | error x => rfl
  | ok c => cases c <;> rfl

/-- What is salvaged is what a strict reading makes of the items that are not rejected. -/
theorem mapM_filter_of_salvage {α β : Type} {read : α → Except ExplorerError (β × List ExplorerError)}
    {strict : α → Except ExplorerError β} {p : α → Bool} (hp : ∀ a, p a = !rejects (read a))
    (hstrict : ∀ a b skipped, read a = .ok (b, skipped) → strict a = .ok b) {as : List α}
    {bs : List β} {skipped : List ExplorerError} (h : salvage read as = .ok (bs, skipped)) :
    (as.filter p).mapM strict = .ok bs := by
  induction as generalizing bs skipped with
  | nil =>
    obtain ⟨rfl, -⟩ := Prod.mk.inj (Except.ok.inj h)
    rfl
  | cons a as ih =>
    have hpa := hp a
    rcases salvage_cons_cases h with ⟨b, front, bs', more, ha, hs, rfl⟩ | ⟨e, more, ha, he, hs⟩
    · rw [ha] at hpa
      rw [List.filter_cons_of_pos hpa, List.mapM_cons, hstrict a b front ha, ih hs]
      rfl
    · have hneg : ¬p a = true := by simp [hpa, ha, rejects, he]
      rw [List.filter_cons_of_neg hneg]
      exact ih hs

variable {c : Catalog}

theorem entriesOf_accepted {kind : ObjectKind} {es : List Entry} (h : c.entriesOf kind = .ok es) :
    c.accepted.entriesOf kind = .ok (es.filter (!·.isRejected)) := by
  cases hes : c.entries with
  | error reason =>
    rw [entriesOf_eq_error hes] at h
    cases h
  | ok all =>
    obtain ⟨sorted, hsorted, hstable⟩ := exists_entriesOf hes kind
    obtain rfl : sorted = es := Except.ok.inj (hsorted.symm.trans h)
    have haccepted : c.accepted.entries = .ok (all.filter (!·.isRejected)) := by
      rw [accepted, hes]
      rfl
    obtain ⟨sorted', hsorted', hstable'⟩ := exists_entriesOf haccepted kind
    rw [hsorted']
    refine congrArg Except.ok (hstable'.unique ?_)
    have hswap : userEntries kind (all.filter (!·.isRejected)) =
        (userEntries kind all).filter (!·.isRejected) := by
      simp only [userEntries, List.filter_filter, Bool.and_comm]
    rw [hswap]
    exact hstable.filter _

theorem indexEntries_accepted {table : String} {es : List Entry}
    (h : c.indexEntries table = .ok es) :
    c.accepted.indexEntries table = .ok (es.filter (!·.isRejected)) := by
  unfold indexEntries at h ⊢
  obtain ⟨all, hall, h⟩ := Draft.bind_eq_ok h
  obtain rfl := Except.ok.inj h
  rw [entriesOf_accepted hall]
  refine congrArg Except.ok ?_
  simp only [List.filter_filter, Bool.and_comm]

theorem mapM_readIndex_of_salvageIndexes {es : List Entry} {indexes : List Index}
    {skipped : List ExplorerError} (h : salvageIndexes es = .ok (indexes, skipped)) :
    (es.filter (!·.isRejected)).mapM Entry.readIndex = .ok indexes := by
  refine mapM_filter_of_salvage (fun e => ?_) (fun e i more hi => ?_) h
  · rw [← e.rejects_readIndex]
    cases e.readIndex <;> rfl
  · obtain ⟨i', hi', h⟩ := Draft.bind_eq_ok hi
    obtain ⟨rfl, -⟩ := Prod.mk.inj (Except.ok.inj h)
    exact hi'

theorem load_accepted {withIndexes : Bool} {e : Entry} {t : Table} {skipped : List ExplorerError}
    (h : c.salvageTable withIndexes e = .ok (t, skipped)) :
    c.accepted.load withIndexes e = .ok t := by
  rcases salvageTable_cases c withIndexes e with
    ⟨x, -, hsalvage, -⟩ | ⟨bare, ht, ⟨rfl, hsalvage⟩ | ⟨x, -, hsalvage, -⟩ | ⟨es, rfl, hes, hsalvage⟩⟩
  · cases hsalvage.symm.trans h
  · obtain ⟨rfl, -⟩ := Prod.mk.inj (Except.ok.inj (hsalvage.symm.trans h))
    exact load_false ht
  · cases hsalvage.symm.trans h
  · rw [hsalvage] at h
    rw [load_true ht, indexesOf_eq (indexEntries_accepted hes)]
    cases hindexes : salvageIndexes es with
    | error x => rw [hindexes] at h; cases h
    | ok r =>
      rw [hindexes] at h
      obtain ⟨rfl, -⟩ := Prod.mk.inj (Except.ok.inj h)
      rw [mapM_readIndex_of_salvageIndexes hindexes]
      rfl

theorem isStatementError_of_indexEntries {table : String} {e : ExplorerError}
    (h : c.indexEntries table = .error e) : e.isStatementError = false := by
  unfold indexEntries at h
  cases hes : c.entries with
  | error reason =>
    rw [entriesOf_eq_error hes] at h
    obtain rfl := Except.error.inj h
    rfl
  | ok es =>
    obtain ⟨sorted, hsorted, -⟩ := exists_entriesOf hes .index
    rw [hsorted] at h
    cases h

/-- A table is put aside for its own statement only. -/
theorem rejects_salvageTable (withIndexes : Bool) (e : Entry) :
    rejects (c.salvageTable withIndexes e) = e.isRejected := by
  rw [← e.rejects_readTable]
  rcases salvageTable_cases c withIndexes e with
    ⟨x, ht, h, -⟩ | ⟨t, ht, ⟨rfl, h⟩ | ⟨x, hes, h, -⟩ | ⟨es, rfl, -, h⟩⟩
  · rw [h, ht]
    rfl
  · rw [h, ht]
    rfl
  · rw [h, ht]
    exact isStatementError_of_indexEntries hes
  · rw [h, ht]
    cases hindexes : salvageIndexes es with
    | error x => exact isStatementError_of_salvage hindexes
    | ok r => rfl

theorem tables_accepted {withIndexes : Bool} {ts : List Table} {skipped : List ExplorerError}
    (h : c.tablesLenient withIndexes = .ok (ts, skipped)) :
    c.accepted.tables withIndexes none = .ok ts := by
  unfold tablesLenient at h
  unfold tables
  obtain ⟨es, hes, h⟩ := Draft.bind_eq_ok h
  have hread : (es.filter (!·.isRejected)).mapM (c.accepted.load withIndexes) = .ok ts :=
    mapM_filter_of_salvage (fun e => by rw [rejects_salvageTable])
      (fun e t more ht => load_accepted ht) h
  rw [entriesOf_accepted hes]
  dsimp only [bind, Except.bind]
  rw [hread]
  rfl

end Accepted

/-- Reading a catalog leniently finds all tables where a strict reading does, and else puts aside first
what the strict reading ends with. What it finds is what a strict reading makes of the entries whose
statements are not at fault. Where it fails, the strict reading fails too. -/
theorem tablesLenient_agrees (c : Catalog) (withIndexes : Bool) :
    match c.tablesLenient withIndexes with
    | .ok (ts, skipped) =>
      c.tables withIndexes none = skipped.head?.elim (.ok ts) .error ∧
        c.accepted.tables withIndexes none = .ok ts
    | .error e => ∃ e', c.tables withIndexes none = .error e' ∧
        (e' = e ∨ e'.isStatementError = true) := by
  have hagrees := tablesLenient_agrees_tables c withIndexes
  cases hlenient : c.tablesLenient withIndexes with
  | ok r =>
    obtain ⟨ts, skipped⟩ := r
    refine ⟨?_, tables_accepted hlenient⟩
    rw [hlenient] at hagrees
    generalize c.tables withIndexes none = strict at hagrees
    cases hagrees with
    | complete b => rfl
    | skipping b more he => rfl
  | error e =>
    rw [hlenient] at hagrees
    generalize c.tables withIndexes none = strict at hagrees
    cases hagrees with
    | failing e => exact ⟨e, rfl, .inl rfl⟩
    | overtaken he he' => exact ⟨_, rfl, .inr he'⟩

end Catalog
end DdlSchema
