import DdlSchema.Proofs.Parser.Select
import DdlSchema.Proofs.Sqlite.Action
import Mathlib.Data.List.Chain
import Mathlib.Data.List.Infix

/-! Statements as transactions, for any graph that carries the actions. No clause but the last one is
ever changed in place. Where a clause is started before anything else is done, the clauses that were
there before outlast every statement, and one that fails leaves nothing else. -/
namespace DdlSchema

namespace Draft

/-- A change that puts another clause in the place of the last one, or leaves all clauses alone. -/
def Amends (d e : Draft) : Prop :=
  e.clauses = d.clauses ∨ ∃ front c c', d.clauses = front ++ [c] ∧ e.clauses = front ++ [c']

variable {d e : Draft}

theorem Amends.refl (d : Draft) : d.Amends d := .inl rfl

theorem amends_replaceLast {c : Clause} (h : d.last? = some c) (c' : Clause) :
    d.Amends (d.replaceLast c') := by
  obtain ⟨front, hfront⟩ := List.getLast?_eq_some_iff.1 h
  exact .inr ⟨front, c, c', hfront, by simp [replaceLast, hfront]⟩

theorem last?_of_currentTable {t : Table} (h : d.currentTable = .ok t) :
    d.last? = some (.table t) := by
  unfold currentTable at h
  split at h <;> simp_all

theorem last?_of_currentIndex {i : Index} (h : d.currentIndex = .ok i) :
    d.last? = some (.index i) := by
  unfold currentIndex at h
  split at h <;> simp_all

theorem amends_onTable {f : Table → Table} (h : d.onTable f = .ok e) : d.Amends e := by
  obtain ⟨t, ht, h⟩ := bind_eq_ok h
  cases h
  exact amends_replaceLast (last?_of_currentTable ht) _

theorem amends_onIndex {f : Index → Index} (h : d.onIndex f = .ok e) : d.Amends e := by
  obtain ⟨i, hi, h⟩ := bind_eq_ok h
  cases h
  exact amends_replaceLast (last?_of_currentIndex hi) _

theorem amends_onColumn {f : Column → Column} (h : d.onColumn f = .ok e) : d.Amends e := by
  obtain ⟨c, -, h⟩ := bind_eq_ok h
  exact amends_onTable h

theorem amends_onPrimaryKey {f : PrimaryKey → PrimaryKey} (h : d.onPrimaryKey f = .ok e) :
    d.Amends e := by
  obtain ⟨k, -, h⟩ := bind_eq_ok h
  exact amends_onTable h

theorem amends_onForeignKey {f : ForeignKey → ForeignKey} (h : d.onForeignKey f = .ok e) :
    d.Amends e := by
  obtain ⟨k, -, h⟩ := bind_eq_ok h
  exact amends_onTable h

theorem amends_onIndexColumn {f : IndexColumn → IndexColumn} (h : d.onIndexColumn f = .ok e) :
    d.Amends e := by
  obtain ⟨c, -, h⟩ := bind_eq_ok h
  exact amends_onIndex h

/-- Behind other clauses, a change stays behind them. -/
theorem Amends.append {before more : List Clause} (h : d.Amends e)
    (hd : d.clauses = before ++ more) (hmore : more ≠ []) :
    ∃ more', e.clauses = before ++ more' ∧ more' ≠ [] := by
  rcases h with he | ⟨front, c, c', hfront, he⟩
  · exact ⟨more, he.trans hd, hmore⟩
  · obtain ⟨rest, last, rfl⟩ := (List.eq_nil_or_concat more).resolve_left hmore
    rw [hd, List.concat_eq_append, ← List.append_assoc] at hfront
    rw [he, ← (List.append_inj_left' hfront rfl), List.append_assoc]
    exact ⟨rest ++ [c'], rfl, by simp⟩

/-- Nothing but the last clause has changed, and no clause is gone. -/
def Keeps (d e : Draft) : Prop :=
  d.clauses.dropLast <+: e.clauses ∧ d.clauses.length ≤ e.clauses.length

theorem Keeps.refl (d : Draft) : d.Keeps d := ⟨List.dropLast_prefix _, Nat.le_refl _⟩

theorem Keeps.trans {f : Draft} (hde : d.Keeps e) (hef : e.Keeps f) : d.Keeps f := by
  refine ⟨?_, Nat.le_trans hde.2 hef.2⟩
  have hlength : d.clauses.dropLast.length ≤ e.clauses.dropLast.length := by
    have hle := hde.2
    simp only [List.length_dropLast]
    omega
  exact (List.prefix_of_prefix_length_le hde.1 (List.dropLast_prefix _) hlength).trans hef.1

theorem Amends.keeps (h : d.Amends e) : d.Keeps e := by
  rcases h with he | ⟨front, c, c', hd, he⟩
  · exact ⟨he ▸ List.dropLast_prefix _, he ▸ Nat.le_refl _⟩
  · constructor
    · rw [hd, he, List.dropLast_concat]
      exact List.prefix_append _ _
    · simp [hd, he]

theorem keeps_add (d : Draft) (c : Clause) : d.Keeps (d.add c) :=
  ⟨(List.dropLast_prefix _).trans (List.prefix_append _ _), by simp [add]⟩

end Draft

namespace Sqlite

open Draft

/-- The actions that start a clause. -/
def Action.startsClause : Action → Bool
  | doCreateTable | doCreateIndex | doCreateUniqueIndex => true
  | _ => false

theorem exists_add_of_startsClause {a : Action} (ha : a.startsClause = true) (next : Option Token)
    (d : Draft) : ∃ c, a.perform next d = ⟨d.add c, .ok ()⟩ := by
  cases a <;> first | exact ⟨_, rfl⟩ | cases ha

section Amends

variable {d : Draft} {next : Option Token}

theorem amends_change {result : Except HookError Draft} (h : ∀ e, result = .ok e → d.Amends e) :
    d.Amends (change d result).draft := by
  cases result with
  | ok e => exact h e rfl
  | error e => exact .refl d

theorem amends_mapError {result : Except DraftError Draft} (h : ∀ e, result = .ok e → d.Amends e)
    (e : Draft) (he : result.mapError HookError.draft = .ok e) : d.Amends e := by
  cases result with
  | ok e' => cases he; exact h _ rfl
  | error e' => cases he

theorem amends_plainly {result : Except DraftError Draft} (h : ∀ e, result = .ok e → d.Amends e) :
    d.Amends (plainly d result).draft := amends_change (amends_mapError h)

theorem amends_withText {f : String → Draft → Except DraftError Draft}
    (h : ∀ s e, f s d = .ok e → d.Amends e) : d.Amends (withText next d f).draft := by
  cases next with
  | none => exact .refl d
  | some t => exact amends_plainly (h t.text)

theorem amends_typeArgument {f : UInt32 → Column → Column} :
    d.Amends (change d do
      let n ← typeArgument (← need next)
      (d.onColumn (f n)).mapError .draft).draft := by
  refine amends_change fun e he => ?_
  obtain ⟨t, -, he⟩ := bind_eq_ok he
  obtain ⟨n, -, he⟩ := bind_eq_ok he
  exact amends_mapError (fun e => amends_onColumn) e he

theorem amends_startPrimaryKey : d.Amends (change d (startPrimaryKey next d)).draft := by
  refine amends_change fun e he => ?_
  unfold startPrimaryKey at he
  obtain ⟨t, -, he⟩ := bind_eq_ok he
  cases hk : t.primaryKey with
  | none =>
    simp only [hk] at he
    exact amends_mapError (fun e => amends_onTable) e he
  | some k =>
    simp only [hk] at he
    cases he

theorem amends_resolveKey : d.Amends (resolveKey d).draft := by
  unfold resolveKey
  cases ht : d.currentTable with
  | error e => exact .refl d
  | ok t =>
    dsimp only
    split <;> exact amends_replaceLast (last?_of_currentTable ht) _

/-- Any other action changes the last clause at most. -/
theorem amends_perform {a : Action} (ha : a.startsClause = false) (next : Option Token) (d : Draft) :
    d.Amends (a.perform next d).draft := by
  cases a with
  | doCreateTable | doCreateIndex | doCreateUniqueIndex => cases ha
  | tableName | columnName | constraintName => exact amends_withText fun s e => amends_onTable
  | typeName | defaultInteger | defaultString | defaultKeyword =>
    exact amends_withText fun s e => amends_onColumn
  | null | notNull | inlinePrimaryKey | autoincrement | defaultNull =>
    exact amends_plainly fun e => amends_onColumn
  | typeSize | typeScale => exact amends_typeArgument
  | pkColumnName => exact amends_withText fun s e => amends_onPrimaryKey
  | doPrimaryKey => exact amends_startPrimaryKey
  | doForeignKey => exact amends_plainly fun e => amends_onTable
  | fkColumnName | fkReferencedTableName | fkReferencedColumnName =>
    exact amends_withText fun s e => amends_onForeignKey
  | tableEnd => exact amends_resolveKey
  | indexName | indexTableName | indexColumnName =>
    exact amends_withText fun s e => amends_onIndex
  | indexColumnAscOrDesc =>
    refine amends_withText fun s e he => ?_
    unfold setDirection at he
    split at he
    · exact amends_onIndexColumn he
    · cases he

end Amends

/-- Whether the action of a node starts a clause. -/
def StartsClause (g : Graph Action) (id : Nat) : Prop :=
  ∃ a, (g.node id).hook = some a ∧ a.startsClause = true

/-- A path from the root. -/
def IsPath (g : Graph Action) (path : List Nat) : Prop :=
  path.head? = some g.root ∧ path.IsChain fun a b => b ∈ g.successors a

/-- Whether every path to a node with another action has passed a node that starts a clause. -/
def StartsFirst (g : Graph Action) : Prop :=
  ∀ path id a, IsPath g (path ++ [id]) → (g.node id).hook = some a → a.startsClause = false →
    ∃ s ∈ path, StartsClause g s

theorem IsPath.concat {g : Graph Action} {path : List Nat} {id s : Nat}
    (h : IsPath g (path ++ [id])) (hs : s ∈ g.successors id) : IsPath g (path ++ [id] ++ [s]) := by
  obtain ⟨hhead, hlinked⟩ := h
  constructor
  · simpa using hhead
  · rw [List.isChain_append]
    exact ⟨hlinked, .singleton s, by simpa using hs⟩

/-- What a statement has added when it has come along a path: something, if the path started a clause. -/
def Adds (g : Graph Action) (before : List Clause) (path : List Nat) (d : Draft) : Prop :=
  ∃ more, d.clauses = before ++ more ∧ ((∃ s ∈ path, StartsClause g s) → more ≠ [])

theorem Adds.isPrefix {g : Graph Action} {before : List Clause} {path : List Nat} {d : Draft}
    (h : Adds g before path d) : before <+: d.clauses := by
  obtain ⟨more, hclauses, -⟩ := h
  exact ⟨more, hclauses.symm⟩

section Walk

variable {p : Parser Action} (hact : p.act = act)

include hact

theorem keeps_enter (id : Nat) (tokens : List Token) (d : Draft) :
    d.Keeps (p.enter id tokens d).draft := by
  unfold Parser.enter
  rw [hact]
  cases (p.graph.node id).hook with
  | none => exact .refl d
  | some a =>
    cases ha : a.startsClause with
    | false => exact Amends.keeps (amends_perform ha tokens.head? d.tick)
    | true =>
      obtain ⟨c, hc⟩ := exists_add_of_startsClause ha tokens.head? d.tick
      simp only [act, Parser.context, hc]
      exact keeps_add d.tick c

theorem keeps_walk (fuel : Nat) (candidates : List Nat) (tokens : List Token) (d : Draft) :
    d.Keeps (p.walk fuel candidates tokens d).draft := by
  induction fuel generalizing candidates tokens d with
  | zero => exact .refl d
  | succ fuel ih =>
    cases p.step candidates tokens d with
    | refused hid => rw [Parser.walk_refused hid]; exact .refl d
    | failed hid he => rw [Parser.walk_failed hid he]; exact keeps_enter hact _ _ d
    | finished hid he hk => rw [Parser.walk_finished hid he hk]; exact keeps_enter hact _ _ d
    | moved hid he hk =>
      rw [Parser.walk_moved hid he hk]
      exact (keeps_enter hact _ _ d).trans (ih _ _ _)

/-- A step along a path keeps to what the path has added. -/
theorem Adds.enter (hstarts : StartsFirst p.graph) {before : List Clause} {path : List Nat} {id : Nat}
    {d : Draft} (h : Adds p.graph before path d) (hpath : IsPath p.graph (path ++ [id]))
    (tokens : List Token) : Adds p.graph before (path ++ [id]) (p.enter id tokens d).draft := by
  obtain ⟨more, hclauses, hmore⟩ := h
  unfold Parser.enter
  rw [hact]
  cases hhook : (p.graph.node id).hook with
  | none =>
    refine ⟨more, hclauses, ?_⟩
    rintro ⟨s, hs, a, ha, hstart⟩
    rcases List.mem_append.1 hs with hs | hs
    · exact hmore ⟨s, hs, a, ha, hstart⟩
    · rw [List.mem_singleton.1 hs, hhook] at ha
      cases ha
  | some a =>
    cases ha : a.startsClause with
    | false =>
      -- Something else than a start changes the last clause, which the path has added before.
      have hadded := hmore (hstarts path id a hpath hhook ha)
      have htick : d.tick.clauses = before ++ more := hclauses
      obtain ⟨more', hmore', hne⟩ := (amends_perform ha tokens.head? d.tick).append htick hadded
      exact ⟨more', hmore', fun _ => hne⟩
    | true =>
      obtain ⟨c, hc⟩ := exists_add_of_startsClause ha tokens.head? d.tick
      simp only [act, Parser.context, hc]
      refine ⟨more ++ [c], ?_, fun _ => by simp⟩
      simp only [add, clauses_tick, hclauses, List.append_assoc]

theorem prefix_walk (hstarts : StartsFirst p.graph) {before : List Clause} (fuel : Nat)
    {path candidates : List Nat} (hpath : ∀ c ∈ candidates, IsPath p.graph (path ++ [c]))
    (tokens : List Token) {d : Draft} (h : Adds p.graph before path d) :
    before <+: (p.walk fuel candidates tokens d).draft.clauses := by
  induction fuel generalizing path candidates tokens d with
  | zero => exact h.isPrefix
  | succ fuel ih =>
    cases p.step candidates tokens d with
    | refused hid => rw [Parser.walk_refused hid]; exact h.isPrefix
    | failed hid he =>
      rw [Parser.walk_failed hid he]
      exact (h.enter hact hstarts (hpath _ (Parser.mem_of_select hid)) _).isPrefix
    | finished hid he hk =>
      rw [Parser.walk_finished hid he hk]
      exact (h.enter hact hstarts (hpath _ (Parser.mem_of_select hid)) _).isPrefix
    | moved hid he hk =>
      rw [Parser.walk_moved hid he hk]
      have hid' := hpath _ (Parser.mem_of_select hid)
      exact ih (fun s hs => hid'.concat hs) _ (h.enter hact hstarts hid' _)

theorem prefix_walk_root (hstarts : StartsFirst p.graph) (tokens : List Token) (d : Draft) :
    d.clauses <+: (p.walk p.fuel [p.graph.root] tokens d).draft.clauses := by
  have hroot : ∀ c ∈ [p.graph.root], IsPath p.graph ([] ++ [c]) := by
    intro c hc
    rw [List.mem_singleton.1 hc]
    exact ⟨rfl, .singleton _⟩
  exact prefix_walk hact hstarts p.fuel hroot tokens ⟨[], by simp, by simp⟩

end Walk

/-- Statements are transactions, whatever graph carries the actions. A statement changes no clause that
was there before but the last one, and it adds none when it fails; the version never falls. Where every
path starts a clause before it does anything else, no clause is changed at all: a statement that fails
leaves the clauses as they were, and one that succeeds adds to them. -/
theorem parseTokens_transactional (p : Parser Action) (hact : p.act = act) (tokens : List Token)
    (d : Draft) :
    d.clauses.dropLast <+: (p.parseTokens tokens d).draft.clauses ∧
    d.clauses.length ≤ (p.parseTokens tokens d).draft.clauses.length ∧
    (∀ e, (p.parseTokens tokens d).verdict = .error e →
      (p.parseTokens tokens d).draft.clauses.length = d.clauses.length) ∧
    d.version ≤ (p.parseTokens tokens d).draft.version ∧
    (StartsFirst p.graph →
      (∀ e, (p.parseTokens tokens d).verdict = .error e →
        (p.parseTokens tokens d).draft.clauses = d.clauses) ∧
      ((p.parseTokens tokens d).verdict = .ok () →
        d.clauses <+: (p.parseTokens tokens d).draft.clauses)) := by
  obtain ⟨hfront, hlength⟩ := keeps_walk hact p.fuel [p.graph.root] tokens d
  have hbefore := fun hstarts => prefix_walk_root hact hstarts tokens d
  have hversion : d.version ≤ (p.parseTokens tokens d).draft.version := by
    rw [p.version_parseTokens (fun a context d => by rw [hact, act_version])]
    exact Nat.le_add_right _ _
  cases h : (p.walk p.fuel [p.graph.root] tokens d).verdict with
  | ok u =>
    rw [Parser.parseTokens_of_ok p h] at hversion ⊢
    have hok : ∀ e, (p.walk p.fuel [p.graph.root] tokens d).verdict ≠ .error e := by
      intro e he
      rw [h] at he
      cases he
    exact ⟨hfront, hlength, fun e he => absurd he (hok e), hversion,
      fun hstarts => ⟨fun e he => absurd he (hok e), fun _ => hbefore hstarts⟩⟩
  | error e =>
    rw [Parser.parseTokens_of_error p h] at hversion ⊢
    have htake : ((p.walk p.fuel [p.graph.root] tokens d).draft.clauses.take
        d.clauses.length).length = d.clauses.length := by
      rw [List.length_take]
      omega
    refine ⟨List.prefix_take_iff.2 ⟨hfront, by simp⟩, Nat.le_of_eq htake.symm, fun _ _ => htake,
      hversion, fun hstarts => ⟨fun _ _ => ?_, nofun⟩⟩
    exact (List.prefix_iff_eq_take.1 (hbefore hstarts)).symm

section Instance

/-- The nodes of the dialect that come before every clause. -/
def IsOpening (id : Nat) : Prop := id = State.root.id ∨ id = State.create.id

theorem isOpening_successor {id s : Nat} (h : IsOpening id) (hs : s ∈ graph.successors id) :
    IsOpening s ∨ StartsClause graph s := by
  rcases h with rfl | rfl <;> rw [Graph.successors, node_graph] at hs
  · exact .inl (.inr (List.mem_singleton.1 hs))
  · obtain ⟨c, hc, rfl⟩ := List.mem_map.1 hs
    have hall : ∀ c ∈ State.create.next, ∃ a, c.action = some a ∧ a.startsClause = true := by decide
    obtain ⟨a, ha, hstart⟩ := hall c hc
    exact .inr ⟨a, by rw [node_graph]; exact ha, hstart⟩

theorem isOpening_last {front : List Nat} {id : Nat}
    (hhead : ∀ s ∈ (front ++ [id]).head?, IsOpening s ∨ StartsClause graph s)
    (hlinked : (front ++ [id]).IsChain fun a b => b ∈ graph.successors a)
    (hfront : ∀ s ∈ front, ¬StartsClause graph s) : IsOpening id ∨ StartsClause graph id := by
  induction front with
  | nil => exact hhead id rfl
  | cons a front ih =>
    obtain ⟨ha, hrest⟩ := List.forall_mem_cons.1 hfront
    obtain ⟨hnext, hlinked⟩ := List.isChain_cons.1 hlinked
    have hopening := (hhead a rfl).resolve_right ha
    exact ih (fun s hs => isOpening_successor hopening (hnext s hs)) hlinked hrest

/-- The grammar of the dialect starts a clause before it does anything else. -/
theorem startsFirst_graph : StartsFirst graph := by
  intro path id a hpath hhook ha
  by_contra hnone
  have hfront : ∀ s ∈ path, ¬StartsClause graph s := fun s hs h => hnone ⟨s, hs, h⟩
  have hhead : ∀ s ∈ (path ++ [id]).head?, IsOpening s ∨ StartsClause graph s := by
    intro s hs
    rw [hpath.1] at hs
    exact .inl (.inl (Option.some.inj hs).symm)
  rcases isOpening_last hhead hpath.2 hfront with (rfl | rfl) | ⟨b, hb, hstart⟩
  · rw [node_graph] at hhook
    cases hhook
  · rw [node_graph] at hhook
    cases hhook
  · rw [hhook] at hb
    cases hb
    rw [ha] at hstart
    cases hstart

/-- The statement `CREATE TABLE`, which starts a table and fails. -/
def unfinished : List Token := [⟨.word "CREATE", default⟩, ⟨.word "TABLE", default⟩]

theorem parseTokens_transactional_unfinished :
    parser.act = act ∧ StartsFirst parser.graph ∧
      ∃ e, (parser.parseTokens unfinished ⟨[.table {}], 7⟩).verdict = .error e ∧
        (parser.parseTokens unfinished ⟨[.table {}], 7⟩).draft.clauses = [.table {}] := by
  have hstarts : StartsFirst parser.graph := by rw [parser_graph]; exact startsFirst_graph
  have hfails : (parser.parseTokens unfinished ⟨[.table {}], 7⟩).verdict.isOk = false := by
    rw [parser_eq]
    decide +kernel
  cases he : (parser.parseTokens unfinished ⟨[.table {}], 7⟩).verdict with
  | ok u => rw [he] at hfails; cases hfails
  | error e =>
    have h := parseTokens_transactional parser parser_act unfinished ⟨[.table {}], 7⟩
    exact ⟨parser_act, hstarts, e, rfl, (h.2.2.2.2 hstarts).1 e he⟩

end Instance

end Sqlite
end DdlSchema
