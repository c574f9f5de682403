import DdlSchema.Proofs.Sqlite.Run
import DdlSchema.Proofs.Sqlite.Syntax

/-! Every symbol list that the states read to an end is the spelling of a statement. What the actions do
plays no part. -/
namespace DdlSchema
namespace Sqlite

/-- Whether a statement may end at a state. -/
def State.closes : State → Bool
  | tableClose | tableEnd | indexClose => true
  | _ => false

/-- The symbols that lead from a state to the end of a statement. -/
inductive Reads : State → List Symbol → Prop where
  | ended {s : State} (h : s.closes = true) : Reads s []
  | moved {s e : State} {x : Symbol} {xs : List Symbol} (h : s.move x = some e) (hr : Reads e xs) :
    Reads s (x :: xs)

theorem reads_of_run {s : State} {xs : List Symbol} {d e : Draft} (h : run s xs d = some e) :
    Reads s xs := by
  induction xs generalizing s d with
  | nil =>
    apply Reads.ended
    cases s <;> first | rfl | cases h
  | cons x xs ih =>
    rw [run, Option.bind_eq_some_iff] at h
    obtain ⟨c, hmove, h⟩ := h
    obtain ⟨d', -, h⟩ := Option.bind_eq_some_iff.1 h
    exact .moved hmove (ih h)

/-- The symbols that lead to the end from a successor on, which takes the first one unless it is idle. -/
def Enters (c : State) (xs : List Symbol) : Prop :=
  if c.matcher = .idle then Reads c xs
  else ∃ x ys, xs = x :: ys ∧ c.matcher.takes x = true ∧ Reads c ys

theorem Reads.next {s : State} {xs : List Symbol} (h : Reads s xs) (hs : s.closes = false) :
    ∃ c ∈ s.next, Enters c xs := by
  cases h with
  | ended h => rw [hs] at h; cases h
  | @moved s e x ys hmove hr =>
    obtain ⟨c, hchoose, -⟩ := Option.bind_eq_some_iff.1 (show _ = some e from hmove)
    refine ⟨c, State.mem_next_of_choose hchoose, ?_⟩
    unfold Enters
    by_cases hidle : c.matcher = .idle
    · rw [if_pos hidle]
      have hgoes : c.choose (some x) = some e :=
        (State.choose_of_choose_idle hchoose hidle).trans hmove
      have he := State.matcher_ne_idle hidle (State.mem_next_of_choose hgoes)
      exact .moved (State.move_of_choose hgoes he) hr
    · rw [if_neg hidle]
      cases (State.move_of_choose hchoose hidle).symm.trans hmove
      exact ⟨x, ys, rfl, State.fits_of_choose hchoose hidle, hr⟩

/-- The one symbol that a matcher takes, if there is just one. -/
def Matcher.symbol? : Matcher → Option Symbol
  | keyword k => some (.keyword k)
  | opening => some .opening
  | closing => some .closing
  | comma => some .comma
  | _ => none

theorem Matcher.eq_of_takes {m : Matcher} {x y : Symbol} (hm : m.symbol? = some y)
    (hx : m.takes x = true) : x = y := by
  cases m <;> cases hm <;> cases x <;> simp_all [takes]

namespace Enters

variable {c : State} {xs : List Symbol}

theorem idle (h : Enters c xs) (hc : c.matcher = .idle) : Reads c xs := by
  rwa [Enters, if_pos hc] at h

theorem fixed (h : Enters c xs) {x : Symbol} (hc : c.matcher.symbol? = some x) :
    ∃ ys, xs = x :: ys ∧ Reads c ys := by
  have hidle : c.matcher ≠ .idle := by rintro hidle; rw [hidle] at hc; cases hc
  rw [Enters, if_neg hidle] at h
  obtain ⟨y, ys, rfl, hy, hr⟩ := h
  rw [Matcher.eq_of_takes hc hy]
  exact ⟨ys, rfl, hr⟩

theorem named (h : Enters c xs) (hc : c.matcher = .name) :
    ∃ n ys, xs = .name n :: ys ∧ Reads c ys := by
  rw [Enters, if_neg (by rw [hc]; nofun), hc] at h
  obtain ⟨x, ys, rfl, hx, hr⟩ := h
  cases x <;> first | exact ⟨_, ys, rfl, hr⟩ | cases hx

theorem numbered (h : Enters c xs) (hc : c.matcher = .integer) :
    ∃ n ys, xs = .integer n :: ys ∧ Reads c ys := by
  rw [Enters, if_neg (by rw [hc]; nofun), hc] at h
  obtain ⟨x, ys, rfl, hx, hr⟩ := h
  cases x <;> first | exact ⟨_, ys, rfl, hr⟩ | cases hx

theorem quoted (h : Enters c xs) (hc : c.matcher = .string) :
    ∃ s ys, xs = .string s :: ys ∧ Reads c ys := by
  rw [Enters, if_neg (by rw [hc]; nofun), hc] at h
  obtain ⟨x, ys, rfl, hx, hr⟩ := h
  cases x <;> first | exact ⟨_, ys, rfl, hr⟩ | cases hx

theorem chosen (h : Enters c xs) {ks : List Keyword} (hc : c.matcher = .oneOf ks) :
    ∃ k ∈ ks, ∃ ys, xs = .keyword k :: ys ∧ Reads c ys := by
  rw [Enters, if_neg (by rw [hc]; nofun), hc] at h
  obtain ⟨x, ys, rfl, hx, hr⟩ := h
  cases x with
  | keyword k => exact ⟨k, List.contains_iff_mem.1 hx, ys, rfl, hr⟩
  | _ => cases hx

end Enters

namespace Reads

variable {s c : State} {xs : List Symbol}

theorem only (h : Reads s xs) (hs : s.closes = false) (hn : s.next = [c]) : Enters c xs := by
  obtain ⟨c', hc, h⟩ := h.next hs
  rw [hn, List.mem_singleton] at hc
  exact hc ▸ h

theorem fixed (h : Reads s xs) (hs : s.closes = false) (hn : s.next = [c]) {x : Symbol}
    (hc : c.matcher.symbol? = some x) : ∃ ys, xs = x :: ys ∧ Reads c ys := (h.only hs hn).fixed hc

theorem named (h : Reads s xs) (hs : s.closes = false) (hn : s.next = [c])
    (hc : c.matcher = .name) : ∃ n ys, xs = .name n :: ys ∧ Reads c ys := (h.only hs hn).named hc

theorem idle (h : Reads s xs) (hs : s.closes = false) (hn : s.next = [c])
    (hc : c.matcher = .idle) : Reads c xs := (h.only hs hn).idle hc

end Reads

/-- A list that comes apart into items until it is done. -/
theorem exists_flatMap {α : Type} {g : α → List Symbol} {P Done : List Symbol → Prop}
    (hstep : ∀ xs, P xs → Done xs ∨ ∃ a ys, xs = g a ++ ys ∧ g a ≠ [] ∧ P ys) (xs : List Symbol)
    (h : P xs) : ∃ (as : List α) (ys : List Symbol), xs = as.flatMap g ++ ys ∧ Done ys := by
  induction hn : xs.length using Nat.strong_induction_on generalizing xs with
  | _ n ih =>
    rcases hstep xs h with hdone | ⟨a, ys, rfl, hne, hys⟩
    · exact ⟨[], xs, rfl, hdone⟩
    · have hlt : ys.length < n := by
        have hpos := List.length_pos_iff.2 hne
        rw [List.length_append] at hn
        omega
      obtain ⟨as, zs, rfl, hzs⟩ := ih ys.length hlt ys hys rfl
      exact ⟨a :: as, zs, by rw [List.flatMap_cons, List.append_assoc], hzs⟩

section Column

open State

/-- What may stand behind a column: a comma and more, or the end of the table. -/
def ColumnEnd (xs : List Symbol) : Prop :=
  (∃ ys, xs = .comma :: ys ∧ Reads columnComma ys) ∨ xs = [.closing]

theorem Reads.eq_nil {s : State} (hs : ∀ x, s.move x = none) {xs : List Symbol}
    (h : Reads s xs) : xs = [] := by
  cases h with
  | ended h => rfl
  | moved h hr =>
    rw [hs] at h
    cases h

theorem Reads.defaultValue {xs : List Symbol} (h : Reads State.default xs) :
    ∃ (v : DefaultValue) (ys : List Symbol), xs = v.symbol :: ys ∧ Reads columnAttributes ys := by
  obtain ⟨c, hc, hvalue⟩ := h.next rfl
  simp only [State.next, State.row, List.mem_cons, List.not_mem_nil, or_false] at hc
  rcases hc with rfl | rfl | rfl | rfl
  · obtain ⟨ys, rfl, hys⟩ := hvalue.fixed rfl
    exact ⟨.null, ys, rfl, hys.idle rfl rfl rfl⟩
  · obtain ⟨n, ys, rfl, hys⟩ := hvalue.numbered rfl
    exact ⟨.integer n, ys, rfl, hys.idle rfl rfl rfl⟩
  · obtain ⟨s, ys, rfl, hys⟩ := hvalue.quoted rfl
    exact ⟨.string s, ys, rfl, hys.idle rfl rfl rfl⟩
  · obtain ⟨k, hk, ys, rfl, hys⟩ := hvalue.chosen rfl
    have hrest := hys.idle rfl rfl rfl
    simp only [List.mem_cons, List.not_mem_nil, or_false] at hk
    rcases hk with rfl | rfl | rfl
    · exact ⟨.current .timestamp, ys, rfl, hrest⟩
    · exact ⟨.current .date, ys, rfl, hrest⟩
    · exact ⟨.current .time, ys, rfl, hrest⟩

theorem Reads.inlineKey {xs : List Symbol} (h : Reads inlinePrimary xs) :
    ∃ (counts : Bool) (ys : List Symbol),
      .keyword .primary :: xs = (Attribute.primaryKey counts).symbols ++ ys ∧
        Reads columnAttributes ys := by
  obtain ⟨xs, rfl, hkey⟩ := h.fixed rfl rfl rfl
  obtain ⟨c, hc, hnext⟩ := hkey.next rfl
  simp only [State.next, State.row, List.mem_cons, List.not_mem_nil, or_false] at hc
  rcases hc with rfl | rfl
  · obtain ⟨ys, rfl, hys⟩ := hnext.fixed rfl
    exact ⟨true, ys, rfl, hys.idle rfl rfl rfl⟩
  · exact ⟨false, xs, rfl, hnext.idle rfl⟩

theorem Reads.attribute (xs : List Symbol) (h : Reads columnAttributes xs) :
    ColumnEnd xs ∨ ∃ (a : Attribute) (ys : List Symbol), xs = a.symbols ++ ys ∧ a.symbols ≠ [] ∧
      Reads columnAttributes ys := by
  obtain ⟨c, hc, hnext⟩ := h.next rfl
  simp only [State.next, State.row, List.mem_cons, List.not_mem_nil, or_false] at hc
  rcases hc with rfl | rfl | rfl | rfl | rfl | rfl
  · obtain ⟨ys, rfl, hys⟩ := hnext.fixed rfl
    exact .inr ⟨.null, ys, rfl, List.cons_ne_nil _ _, hys.idle rfl rfl rfl⟩
  · obtain ⟨xs, rfl, hnot⟩ := hnext.fixed rfl
    obtain ⟨ys, rfl, hys⟩ := hnot.fixed rfl rfl rfl
    exact .inr ⟨.notNull, ys, rfl, List.cons_ne_nil _ _, hys.idle rfl rfl rfl⟩
  · obtain ⟨xs, rfl, hkey⟩ := hnext.fixed rfl
    obtain ⟨counts, ys, hxs, hys⟩ := hkey.inlineKey
    exact .inr ⟨.primaryKey counts, ys, hxs, by cases counts <;> exact List.cons_ne_nil _ _, hys⟩
  · obtain ⟨xs, rfl, hdefault⟩ := hnext.fixed rfl
    obtain ⟨v, ys, rfl, hys⟩ := hdefault.defaultValue
    exact .inr ⟨.default v, ys, rfl, List.cons_ne_nil _ _, hys⟩
  · obtain ⟨ys, rfl, hys⟩ := hnext.fixed rfl
    exact .inl (.inl ⟨ys, rfl, hys⟩)
  · obtain ⟨ys, rfl, hys⟩ := hnext.fixed rfl
    rw [hys.eq_nil fun _ => rfl]
    exact .inl (.inr rfl)

theorem Reads.typeArguments {xs : List Symbol} (h : Reads typeName xs) :
    ∃ (as : TypeArguments) (ys : List Symbol), xs = as.symbols ++ ys ∧
      Reads columnAttributes ys := by
  obtain ⟨c, hc, hnext⟩ := h.next rfl
  simp only [State.next, State.row, List.mem_cons, List.not_mem_nil, or_false] at hc
  rcases hc with rfl | rfl
  · obtain ⟨xs, rfl, hopen⟩ := hnext.fixed rfl
    obtain ⟨n, xs, rfl, hsize⟩ := (hopen.only rfl rfl).numbered rfl
    obtain ⟨c, hc, hmore⟩ := hsize.next rfl
    simp only [State.next, State.row, List.mem_cons, List.not_mem_nil, or_false] at hc
    rcases hc with rfl | rfl
    · obtain ⟨ys, rfl, hys⟩ := hmore.fixed rfl
      exact ⟨.size n, ys, rfl, hys.idle rfl rfl rfl⟩
    · obtain ⟨xs, rfl, hcomma⟩ := hmore.fixed rfl
      obtain ⟨scale, xs, rfl, hscale⟩ := (hcomma.only rfl rfl).numbered rfl
      obtain ⟨ys, rfl, hys⟩ := hscale.fixed rfl rfl rfl
      exact ⟨.precision n scale, ys, rfl, hys.idle rfl rfl rfl⟩
  · exact ⟨.none, xs, rfl, hnext.idle rfl⟩

theorem Reads.columnDef {xs : List Symbol} (h : Reads columnName xs) (name : String) :
    ∃ (c : ColumnDef) (ys : List Symbol), .name name :: xs = c.symbols ++ ys ∧ ColumnEnd ys := by
  obtain ⟨type, xs, rfl, htype⟩ := h.named rfl rfl rfl
  obtain ⟨arguments, xs, rfl, harguments⟩ := htype.typeArguments
  obtain ⟨attributes, ys, rfl, hend⟩ := exists_flatMap Reads.attribute xs harguments
  refine ⟨⟨name, type, arguments, attributes⟩, ys, ?_, hend⟩
  simp only [ColumnDef.symbols, List.cons_append, List.append_assoc]

end Column

section Constraint

open State

/-- The rest of a listing, from a state that goes on with a comma or the closing bracket. -/
theorem exists_listing {α : Type} {f : α → List Symbol} {s e : State}
    (hstep : ∀ xs, Reads s xs → (∃ ys, xs = .closing :: ys ∧ Reads e ys) ∨
      ∃ a ys, xs = .comma :: (f a ++ ys) ∧ Reads s ys) {a : α} {xs : List Symbol}
    (h : Reads s xs) :
    ∃ (l : Listing α) (ys : List Symbol), .opening :: (f a ++ xs) = l.symbols f ++ ys ∧
      Reads e ys := by
  have hloop : ∃ (as : List α) (ys : List Symbol), xs = commaBefore f as ++ ys ∧
      ∃ zs, ys = .closing :: zs ∧ Reads e zs := by
    refine exists_flatMap (P := Reads s) (fun xs h => (hstep xs h).imp_right ?_) xs h
    rintro ⟨a, ys, rfl, hys⟩
    exact ⟨a, ys, rfl, List.cons_ne_nil _ _, hys⟩
  obtain ⟨as, -, rfl, zs, rfl, hzs⟩ := hloop
  refine ⟨⟨a, as⟩, zs, ?_, hzs⟩
  simp only [Listing.symbols, List.cons_append, List.append_assoc, List.nil_append]

/-- A name and the direction that may stand behind it. -/
theorem Reads.orderedName {n d i : State} (hn : n.closes = false) (hnext : n.next = [d, i])
    (hd : d.matcher = .oneOf [.asc, .desc]) (hd' : d.closes = false) (hdnext : d.next = [i])
    (hi : i.matcher = .idle) {xs : List Symbol} (h : Reads n xs) (name : String) :
    ∃ (a : OrderedName) (ys : List Symbol), .name name :: xs = a.symbols ++ ys ∧ Reads i ys := by
  obtain ⟨c, hc, henters⟩ := h.next hn
  rw [hnext] at hc
  simp only [List.mem_cons, List.not_mem_nil, or_false] at hc
  rcases hc with rfl | rfl
  · obtain ⟨k, hk, ys, rfl, hys⟩ := henters.chosen hd
    have hrest := hys.idle hd' hdnext hi
    simp only [List.mem_cons, List.not_mem_nil, or_false] at hk
    rcases hk with rfl | rfl
    · exact ⟨⟨name, some .ascending⟩, ys, rfl, hrest⟩
    · exact ⟨⟨name, some .descending⟩, ys, rfl, hrest⟩
  · exact ⟨⟨name, none⟩, xs, rfl, henters.idle hi⟩

/-- Items between brackets, each with a name first: a state that takes the names, one behind the items,
and one for each sign. -/
theorem Reads.listing {α : Type} {f : α → List Symbol} {o n i k e : State} (ho : o.closes = false)
    (honext : o.next = [n]) (hn : n.matcher = .name)
    (hitem : ∀ xs, Reads n xs → ∀ name, ∃ (a : α) (ys : List Symbol),
      .name name :: xs = f a ++ ys ∧ Reads i ys)
    (hi : i.closes = false) (hinext : i.next = [k, e]) (hk : k.matcher = .comma)
    (hk' : k.closes = false) (hknext : k.next = [n]) (he : e.matcher = .closing)
    {xs : List Symbol} (h : Reads o xs) :
    ∃ (l : Listing α) (ys : List Symbol), .opening :: xs = l.symbols f ++ ys ∧ Reads e ys := by
  obtain ⟨name, xs, rfl, hxs⟩ := h.named ho honext hn
  obtain ⟨a, ys, ha, hys⟩ := hitem xs hxs name
  rw [ha]
  refine exists_listing (fun xs h => ?_) hys
  obtain ⟨c, hc, henters⟩ := h.next hi
  rw [hinext] at hc
  simp only [List.mem_cons, List.not_mem_nil, or_false] at hc
  rcases hc with rfl | rfl
  · obtain ⟨xs, rfl, hcomma⟩ := henters.fixed (by rw [hk]; rfl)
    obtain ⟨name, xs, rfl, hxs⟩ := hcomma.named hk' hknext hn
    obtain ⟨a, ys, ha, hys⟩ := hitem xs hxs name
    exact .inr ⟨a, ys, by rw [ha], hys⟩
  · exact .inl (henters.fixed (by rw [he]; rfl))

theorem Reads.pkColumns {xs : List Symbol} (h : Reads pkKey xs) :
    ∃ (l : Listing OrderedName) (ys : List Symbol), xs = l.symbols OrderedName.symbols ++ ys ∧
      Reads constraintEnd ys := by
  obtain ⟨xs, rfl, hopen⟩ := h.fixed rfl rfl rfl
  have hname (xs : List Symbol) (h : Reads pkColumnName xs) (name : String) :=
    h.orderedName rfl rfl rfl rfl rfl rfl name
  obtain ⟨l, ys, hl, hys⟩ := hopen.listing rfl rfl rfl hname rfl rfl rfl rfl rfl rfl
  exact ⟨l, ys, hl, hys.idle rfl rfl rfl⟩

theorem Reads.fkColumns {xs : List Symbol} (h : Reads fkKey xs) :
    ∃ (columns referenced : Listing String) (table : String) (ys : List Symbol),
      xs = columns.symbols nameSymbols ++
        .keyword .references :: .name table :: (referenced.symbols nameSymbols ++ ys) ∧
      Reads constraintEnd ys := by
  have hname {n : State} (xs : List Symbol) (h : Reads n xs) (name : String) :
      ∃ (a : String) (ys : List Symbol), .name name :: xs = nameSymbols a ++ ys ∧ Reads n ys :=
    ⟨name, xs, rfl, h⟩
  obtain ⟨xs, rfl, hopen⟩ := h.fixed rfl rfl rfl
  obtain ⟨columns, xs, hcolumns, hclose⟩ := hopen.listing rfl rfl rfl hname rfl rfl rfl rfl rfl rfl
  obtain ⟨xs, rfl, hreferences⟩ := hclose.fixed rfl rfl rfl
  obtain ⟨table, xs, rfl, htable⟩ := hreferences.named rfl rfl rfl
  obtain ⟨xs, rfl, hopen⟩ := htable.fixed rfl rfl rfl
  obtain ⟨referenced, ys, hreferenced, hys⟩ :=
    hopen.listing rfl rfl rfl hname rfl rfl rfl rfl rfl rfl
  refine ⟨columns, referenced, table, ys, ?_, hys.idle rfl rfl rfl⟩
  rw [hcolumns, hreferenced]

theorem Enters.key {c : State} (hc : c = doPrimaryKey ∨ c = doForeignKey) {xs : List Symbol}
    (h : Enters c xs) :
    ∃ (k : KeyDef) (ys : List Symbol), xs = k.symbols ++ ys ∧ Reads constraintEnd ys := by
  rcases hc with rfl | rfl
  · obtain ⟨xs, rfl, hprimary⟩ := h.fixed rfl
    obtain ⟨xs, rfl, hkey⟩ := hprimary.fixed rfl rfl rfl
    obtain ⟨columns, ys, rfl, hys⟩ := hkey.pkColumns
    exact ⟨.primary columns, ys, rfl, hys⟩
  · obtain ⟨xs, rfl, hforeign⟩ := h.fixed rfl
    obtain ⟨xs, rfl, hkey⟩ := hforeign.fixed rfl rfl rfl
    obtain ⟨columns, referenced, table, ys, rfl, hys⟩ := hkey.fkColumns
    refine ⟨.foreign columns table referenced, ys, ?_, hys⟩
    simp only [KeyDef.symbols, List.cons_append, List.append_assoc]

theorem Enters.constraintDef {c : State}
    (hc : c = constraint ∨ c = doPrimaryKey ∨ c = doForeignKey) {xs : List Symbol}
    (h : Enters c xs) :
    ∃ (k : ConstraintDef) (ys : List Symbol), xs = k.symbols ++ ys ∧ Reads constraintEnd ys := by
  rcases hc with rfl | hc
  · obtain ⟨xs, rfl, hconstraint⟩ := h.fixed rfl
    obtain ⟨name, xs, rfl, hname⟩ := hconstraint.named rfl rfl rfl
    obtain ⟨c, hc, hnext⟩ := hname.next rfl
    simp only [State.next, State.row, List.mem_cons, List.not_mem_nil, or_false] at hc
    obtain ⟨key, ys, rfl, hys⟩ := hnext.key hc
    exact ⟨⟨some name, key⟩, ys, rfl, hys⟩
  · obtain ⟨key, ys, rfl, hys⟩ := h.key hc
    exact ⟨⟨none, key⟩, ys, rfl, hys⟩

theorem Reads.constraintDefs {xs : List Symbol} (h : Reads constraintEnd xs) :
    ∃ ks, xs = commaBefore ConstraintDef.symbols ks ++ [.closing] := by
  have hstep (xs : List Symbol) (h : Reads constraintEnd xs) : xs = [.closing] ∨
      ∃ (k : ConstraintDef) (ys : List Symbol), xs = (.comma :: k.symbols) ++ ys ∧
        .comma :: k.symbols ≠ [] ∧ Reads constraintEnd ys := by
    obtain ⟨c, hc, hnext⟩ := h.next rfl
    simp only [State.next, State.row, List.mem_cons, List.not_mem_nil, or_false] at hc
    rcases hc with rfl | rfl
    · obtain ⟨xs, rfl, hcomma⟩ := hnext.fixed rfl
      obtain ⟨c, hc, hnext⟩ := hcomma.next rfl
      simp only [State.next, State.row, List.mem_cons, List.not_mem_nil, or_false] at hc
      obtain ⟨k, ys, rfl, hys⟩ := hnext.constraintDef hc
      exact .inr ⟨k, ys, rfl, List.cons_ne_nil _ _, hys⟩
    · obtain ⟨ys, rfl, hys⟩ := hnext.fixed rfl
      rw [hys.eq_nil fun _ => rfl]
      exact .inl rfl
  obtain ⟨ks, -, rfl, rfl⟩ := exists_flatMap hstep xs h
  exact ⟨ks, rfl⟩

/-- Columns, then constraints, then the end of the table. -/
theorem ColumnEnd.columnDefs {xs : List Symbol} (h : ColumnEnd xs) :
    ∃ cs ks, xs = commaBefore ColumnDef.symbols cs ++
      (commaBefore ConstraintDef.symbols ks ++ [.closing]) := by
  have hstep (xs : List Symbol) (h : ColumnEnd xs) :
      (∃ ks, xs = commaBefore ConstraintDef.symbols ks ++ [.closing]) ∨
        ∃ (c : ColumnDef) (ys : List Symbol), xs = (.comma :: c.symbols) ++ ys ∧
          .comma :: c.symbols ≠ [] ∧ ColumnEnd ys := by
    rcases h with ⟨xs, rfl, hcomma⟩ | rfl
    · obtain ⟨c, hc, hnext⟩ := hcomma.next rfl
      simp only [State.next, State.row, List.mem_cons, List.not_mem_nil, or_false] at hc
      rcases hc with rfl | hc
      · obtain ⟨name, xs, rfl, hname⟩ := hnext.named rfl
        obtain ⟨c, ys, hc, hys⟩ := hname.columnDef name
        exact .inr ⟨c, ys, by rw [hc]; rfl, List.cons_ne_nil _ _, hys⟩
      · obtain ⟨k, ys, rfl, hys⟩ := hnext.constraintDef hc
        obtain ⟨ks, rfl⟩ := hys.constraintDefs
        refine .inl ⟨k :: ks, ?_⟩
        simp only [commaBefore, List.flatMap_cons, List.cons_append, List.append_assoc]
    · exact .inl ⟨[], rfl⟩
  obtain ⟨cs, -, rfl, ks, rfl⟩ := exists_flatMap hstep xs h
  exact ⟨cs, ks, rfl⟩

end Constraint

section Definition

open State

theorem Enters.tableName {xs : List Symbol} (h : Enters tableName xs) :
    ∃ (name : String) (cs : Listing ColumnDef) (ks : List ConstraintDef),
      xs = .name name :: .opening :: (cs.first.symbols ++ (commaBefore ColumnDef.symbols cs.more ++
        (commaBefore ConstraintDef.symbols ks ++ [.closing]))) := by
  obtain ⟨name, xs, rfl, hname⟩ := h.named rfl
  obtain ⟨xs, rfl, hopen⟩ := hname.fixed rfl rfl rfl
  obtain ⟨column, xs, rfl, hcolumn⟩ := hopen.named rfl rfl rfl
  obtain ⟨c, ys, hc, hend⟩ := hcolumn.columnDef column
  obtain ⟨cs, ks, rfl⟩ := hend.columnDefs
  exact ⟨name, ⟨c, cs⟩, ks, by rw [hc]⟩

/-- `IF NOT EXISTS` in front of a target, or the target at once. -/
theorem Reads.ifNotExists {s i n e t : State} (hs : s.closes = false) (hsnext : s.next = [i, t])
    (hi : i.matcher = .keyword .ifWord) (hi' : i.closes = false) (hinext : i.next = [n])
    (hn : n.matcher = .keyword .not) (hn' : n.closes = false) (hnnext : n.next = [e])
    (he : e.matcher = .keyword .existsWord) (he' : e.closes = false) (henext : e.next = [t])
    {xs : List Symbol} (h : Reads s xs) :
    ∃ (b : Bool) (ys : List Symbol), xs = ifNotExistsSymbols b ++ ys ∧ Enters t ys := by
  obtain ⟨c, hc, hnext⟩ := h.next hs
  rw [hsnext] at hc
  simp only [List.mem_cons, List.not_mem_nil, or_false] at hc
  rcases hc with rfl | rfl
  · obtain ⟨xs, rfl, hif⟩ := hnext.fixed (by rw [hi]; rfl)
    obtain ⟨xs, rfl, hnot⟩ := hif.fixed hi' hinext (by rw [hn]; rfl)
    obtain ⟨ys, rfl, hexists⟩ := hnot.fixed hn' hnnext (by rw [he]; rfl)
    exact ⟨true, ys, rfl, hexists.only he' henext⟩
  · exact ⟨false, xs, rfl, hnext⟩

theorem Reads.tableDef {xs : List Symbol} (h : Reads doCreateTable xs) :
    ∃ t : TableDef, .keyword .create :: .keyword .table :: xs = t.symbols := by
  obtain ⟨b, xs, rfl, hname⟩ := h.ifNotExists rfl rfl rfl rfl rfl rfl rfl rfl rfl rfl rfl
  obtain ⟨name, cs, ks, rfl⟩ := hname.tableName
  exact ⟨⟨b, name, cs, ks⟩, rfl⟩

theorem Enters.indexName {xs : List Symbol} (h : Enters indexName xs) :
    ∃ (name table : String) (columns : Listing OrderedName),
      xs = .name name :: .keyword .onWord :: .name table ::
        columns.symbols OrderedName.symbols := by
  obtain ⟨name, xs, rfl, hname⟩ := h.named rfl
  obtain ⟨xs, rfl, hon⟩ := hname.fixed rfl rfl rfl
  obtain ⟨table, xs, rfl, htable⟩ := hon.named rfl rfl rfl
  obtain ⟨xs, rfl, hopen⟩ := htable.fixed rfl rfl rfl
  have hcolumn (xs : List Symbol) (h : Reads indexColumnName xs) (name : String) :=
    h.orderedName rfl rfl rfl rfl rfl rfl name
  obtain ⟨columns, ys, hcolumns, hys⟩ := hopen.listing rfl rfl rfl hcolumn rfl rfl rfl rfl rfl rfl
  rw [hys.eq_nil (fun _ => rfl), List.append_nil] at hcolumns
  exact ⟨name, table, columns, by rw [hcolumns]⟩

theorem Reads.indexStart {xs : List Symbol} (h : Reads indexStart xs) :
    ∃ (ifNotExists : Bool) (name table : String) (columns : Listing OrderedName),
      xs = ifNotExistsSymbols ifNotExists ++ .name name :: .keyword .onWord :: .name table ::
        columns.symbols OrderedName.symbols := by
  obtain ⟨b, xs, rfl, hname⟩ := h.ifNotExists rfl rfl rfl rfl rfl rfl rfl rfl rfl rfl rfl
  obtain ⟨name, table, columns, rfl⟩ := hname.indexName
  exact ⟨b, name, table, columns, rfl⟩

/-- What the states read is the spelling of a statement. -/
theorem Reads.definition {xs : List Symbol} (h : Reads root xs) :
    ∃ s : Definition, xs = s.symbols := by
  obtain ⟨xs, rfl, hcreate⟩ := h.fixed rfl rfl rfl
  obtain ⟨c, hc, hnext⟩ := hcreate.next rfl
  simp only [State.next, State.row, List.mem_cons, List.not_mem_nil, or_false] at hc
  rcases hc with rfl | rfl | rfl
  · obtain ⟨xs, rfl, htable⟩ := hnext.fixed rfl
    obtain ⟨t, ht⟩ := htable.tableDef
    exact ⟨.table t, ht⟩
  · obtain ⟨xs, rfl, hunique⟩ := hnext.fixed rfl
    obtain ⟨xs, rfl, hindex⟩ := hunique.fixed rfl rfl rfl
    obtain ⟨ifNotExists, name, table, columns, rfl⟩ := (hindex.idle rfl rfl rfl).indexStart
    exact ⟨.index ⟨true, ifNotExists, name, table, columns⟩, rfl⟩
  · obtain ⟨xs, rfl, hindex⟩ := hnext.fixed rfl
    obtain ⟨ifNotExists, name, table, columns, rfl⟩ := (hindex.idle rfl rfl rfl).indexStart
    exact ⟨.index ⟨false, ifNotExists, name, table, columns⟩, rfl⟩

end Definition

end Sqlite
end DdlSchema
