import DdlSchema.Proofs.Sqlite.Walk

/-! Runs over the symbols of a statement. They pass idle states in one move with the next symbol, need
no fuel, and keep the clauses that the walk of the parser keeps. -/
namespace DdlSchema
namespace Sqlite

namespace State

/-- What a state does with a symbol that it takes. -/
def effect (s : State) (x : Symbol) (d : Draft) : Option Draft :=
  match s.action with
  | none => some d
  | some a => (a.perform (some x.token) d).kept

/-- What is left to do where a statement ends. -/
def close (s : State) (d : Draft) : Option Draft :=
  match s with
  | tableClose => (Action.tableEnd.perform none d).kept
  | tableEnd | indexClose => some d
  | _ => none

theorem effect_clauses {d e : Draft} (h : d.clauses = e.clauses) (s : State) (x : Symbol) :
    (s.effect x d).map Draft.clauses = (s.effect x e).map Draft.clauses := by
  unfold effect
  cases s.action with
  | none => exact congrArg some h
  | some a => exact kept_perform_clauses h a _

theorem close_clauses {d e : Draft} (h : d.clauses = e.clauses) (s : State) :
    (s.close d).map Draft.clauses = (s.close e).map Draft.clauses := by
  unfold close
  cases s with
  | tableClose => exact kept_perform_clauses h .tableEnd none
  | tableEnd | indexClose => exact congrArg some h
  | _ => rfl

theorem choose_none_eq_none {s : State} (h : s.choose none = none) (d : Draft) :
    s.close d = none := by
  cases s <;> first | rfl | cases h

theorem of_choose_none {s c : State} (h : s.choose none = some c) :
    s = tableClose ∧ c = tableEnd ∨ (s = tableEnd ∨ s = indexClose) ∧ c = finish := by
  cases s <;> cases h <;> simp

end State

/-- The draft after the symbols of a statement, if they make a statement. -/
def run (s : State) (xs : List Symbol) (d : Draft) : Option Draft :=
  match xs with
  | [] => s.close d
  | x :: xs => (s.move x).bind fun e => (e.effect x d).bind (run e xs)

@[simp] theorem run_nil (s : State) (d : Draft) : run s [] d = s.close d := rfl

theorem run_cons {s e : State} {x : Symbol} (h : s.move x = some e) (xs : List Symbol)
    (d : Draft) : run s (x :: xs) d = (e.effect x d).bind (run e xs) := by
  rw [run, h, Option.bind_some]

theorem run_refused {s : State} {x : Symbol} (h : s.move x = none) (xs : List Symbol)
    (d : Draft) : run s (x :: xs) d = none := by rw [run, h, Option.bind_none]

theorem run_clauses (s : State) (xs : List Symbol) {d e : Draft} (h : d.clauses = e.clauses) :
    (run s xs d).map Draft.clauses = (run s xs e).map Draft.clauses := by
  induction xs generalizing s d e with
  | nil => exact State.close_clauses h s
  | cons x xs ih =>
    cases hmove : s.move x with
    | none => rw [run_refused hmove, run_refused hmove]
    | some c =>
      rw [run_cons hmove, run_cons hmove]
      have heffect := State.effect_clauses h c x
      cases hd : c.effect x d with
      | none =>
        rw [hd] at heffect
        rw [Option.map_eq_none_iff.1 heffect.symm]
      | some d' =>
        rw [hd] at heffect
        obtain ⟨e', he, hclauses⟩ := Option.map_eq_some_iff.1 heffect.symm
        rw [he]
        exact ih c hclauses.symm

theorem run_passed {s c : State} {x : Symbol} (h : s.choose (some x) = some c)
    (hc : c.matcher = .idle) (xs : List Symbol) (d : Draft) :
    run c (x :: xs) d = run s (x :: xs) d := by
  obtain ⟨e, he⟩ := State.exists_move_of_choose h
  have hchoose : c.choose (some x) = some e := (State.choose_of_choose_idle h hc).trans he
  have hidle := State.matcher_ne_idle hc (State.mem_next_of_choose hchoose)
  rw [run_cons he, run_cons (State.move_of_choose hchoose hidle)]

/-- A run passes an idle state that goes on with the next symbol. -/
theorem run_idle {s c : State} (hc : c ∈ s.next) (hidle : c.matcher = .idle) {x : Symbol}
    (hx : c.admits (some x) = true) (xs : List Symbol) (d : Draft) :
    run s (x :: xs) d = run c (x :: xs) d :=
  (run_passed (State.choose_of_mem hc hx) hidle xs d).symm

/-- Entering a state for a token keeps the clauses that its symbol leads to. -/
theorem Follows.kept_enter {p : Parser Action} (hp : Follows p) {c : State} {t : Token}
    (ht : c.matcher.takes (.ofToken t) = true) (rest : List Token) (d : Draft) :
    (p.enter c.id (t :: rest) d).kept.map Draft.clauses =
      (c.effect (.ofToken t) d).map Draft.clauses := by
  unfold State.effect
  cases ha : c.action with
  | none => rw [hp.enter_of_none ha]; rfl
  | some a =>
    rw [hp.enter_of_some ha]
    dsimp only
    rw [← kept_perform_token ht ha]
    exact kept_perform_clauses d.clauses_tick a _

theorem Follows.kept_enter_tableEnd {p : Parser Action} (hp : Follows p) (d : Draft) :
    (p.enter State.tableEnd.id [] d).kept.map Draft.clauses =
      (State.tableClose.close d).map Draft.clauses := by
  rw [hp.enter_of_some (show State.tableEnd.action = some .tableEnd from rfl)]
  exact kept_perform_clauses d.clauses_tick .tableEnd none

/-- With fuel for its budget, a walk keeps the clauses of the run over its symbols. -/
theorem Follows.kept_walk {p : Parser Action} (hp : Follows p) (fuel : Nat) {s : State}
    {ts : List Token} (hfuel : s.budget ts ≤ fuel) (d : Draft) :
    (p.walk fuel (s.next.map State.id) ts d).kept.map Draft.clauses =
      (run s (ts.map Symbol.ofToken) d).map Draft.clauses := by
  induction fuel generalizing s ts d with
  | zero => unfold State.budget at hfuel; split at hfuel <;> omega
  | succ fuel ih =>
    cases hp.steps s ts with
    | refused hchoose hselect =>
      rw [Parser.walk_refused hselect]
      cases ts with
      | nil => rw [List.map_nil, run_nil, State.choose_none_eq_none hchoose]; rfl
      | cons t rest => rw [List.map_cons, run_refused (State.move_eq_none_of_choose hchoose)]; rfl
    | finished hchoose hselect hts hc hwalk =>
      subst hts
      obtain ⟨-, rfl⟩ | ⟨hs, rfl⟩ := State.of_choose_none hchoose
      · cases hc
      · rw [hwalk fuel d (by rw [hp.enter_of_none rfl]), hp.enter_of_none rfl]
        rcases hs with rfl | rfl <;> rfl
    | @passed c hchoose hselect hs hc hwalk =>
      have hbudget : c.budget ts ≤ fuel := by
        have hpassed := State.budget_passed hs hc ts
        omega
      cases ts with
      | nil =>
        obtain ⟨rfl, rfl⟩ | ⟨-, rfl⟩ := State.of_choose_none hchoose
        · have hkept := hp.kept_enter_tableEnd d
          rw [List.map_nil, run_nil, ← hkept]
          cases henter : (p.enter State.tableEnd.id [] d).verdict with
          | ok u =>
            rw [hwalk fuel d henter, ih hbudget, Outcome.kept_of_ok henter]
            rfl
          | error e =>
            rw [Parser.walk_failed hselect henter, Outcome.kept_of_error henter]
            rfl
        · cases hc
      | cons t rest =>
        have henter := hp.enter_of_none
          (State.action_of_admits hc (State.admits_of_choose hchoose)) (t :: rest) d
        rw [hwalk fuel d (congrArg Outcome.verdict henter), ih hbudget, henter,
          List.map_cons, run_passed hchoose hc]
        exact run_clauses _ _ rfl
    | @taken c t rest hts hchoose hselect hc hwalk =>
      subst hts
      have hbudget : c.budget rest ≤ fuel := by
        have htaken := s.budget_taken c t rest
        omega
      have hkept := hp.kept_enter (State.fits_of_choose hchoose hc) rest d
      rw [List.map_cons, run_cons (State.move_of_choose hchoose hc)]
      cases henter : (p.enter c.id (t :: rest) d).verdict with
      | ok u =>
        rw [Outcome.kept_of_ok henter, Option.map_some] at hkept
        obtain ⟨e, he, hclauses⟩ := Option.map_eq_some_iff.1 hkept.symm
        rw [hwalk fuel d henter, ih hbudget, he]
        exact run_clauses _ _ hclauses.symm
      | error e =>
        rw [Outcome.kept_of_error henter] at hkept
        rw [Parser.walk_failed hselect henter, Option.map_eq_none_iff.1 hkept.symm]
        rfl

section Statement

variable {p : Parser Action} (hp : Follows p)

include hp

theorem Follows.kept_walk_root {fuel : Nat} {ts : List Token}
    (hfuel : 2 * (ts.length + 1) ≤ fuel) (d : Draft) :
    (p.walk fuel [p.graph.root] ts d).kept.map Draft.clauses =
      (run .root (ts.map Symbol.ofToken) d).map Draft.clauses := by
  obtain ⟨fuel, rfl⟩ : ∃ n, fuel = n + 1 := ⟨fuel - 1, by omega⟩
  rcases hp.walk_root fuel ts with ⟨e, hchoose, he⟩ | hw
  · rw [he]
    cases ts with
    | nil => rfl
    | cons t rest => rw [List.map_cons, run_refused (State.move_eq_none_of_choose hchoose)]; rfl
  · have hbudget : State.root.budget ts ≤ fuel := by
      change 2 * ts.length + 1 ≤ fuel
      omega
    rw [hw, hp.kept_walk fuel hbudget]
    exact run_clauses _ _ d.clauses_tick

/-- With fuel for every token, a statement is accepted where its run comes to an end. -/
theorem Follows.kept_parseTokens {ts : List Token} (hfuel : 2 * (ts.length + 1) ≤ p.fuel)
    (d : Draft) : (p.parseTokens ts d).kept.map Draft.clauses =
      (run .root (ts.map Symbol.ofToken) d).map Draft.clauses := by
  rw [Parser.kept_parseTokens, hp.kept_walk_root hfuel]

/-- So it is where the fuel has not been used up. -/
theorem Follows.kept_parseTokens_of_ne {ts : List Token} {d : Draft}
    (h : (p.parseTokens ts d).verdict ≠ .error (.fuelExhausted p.fuel)) :
    (p.parseTokens ts d).kept.map Draft.clauses =
      (run .root (ts.map Symbol.ofToken) d).map Draft.clauses := by
  have hok : (p.walk p.fuel [p.graph.root] ts d).verdict ≠ .error (.fuelExhausted p.fuel) := by
    intro he
    rw [Parser.parseTokens_of_error p he] at h
    exact h rfl
  have hwalk := p.walk_add p.fuel (2 * (ts.length + 1)) [p.graph.root] ts d hok
  rw [Parser.kept_parseTokens, ← hp.kept_walk_root (Nat.le_add_left _ p.fuel), hwalk]

theorem Follows.run_of_ok {ts : List Token} {d : Draft}
    (h : (p.parseTokens ts d).verdict = .ok ()) :
    (run .root (ts.map Symbol.ofToken) d).map Draft.clauses =
      some (p.parseTokens ts d).draft.clauses := by
  have hne : (p.parseTokens ts d).verdict ≠ .error (.fuelExhausted p.fuel) := by
    rw [h]
    nofun
  rw [← hp.kept_parseTokens_of_ne hne, Outcome.kept_of_ok h, Option.map_some]

end Statement

end Sqlite
end DdlSchema
