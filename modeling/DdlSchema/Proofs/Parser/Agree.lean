import DdlSchema.Proofs.Parser.Select
import DdlSchema.Proofs.Parser.Walk
import Mathlib.Data.List.Forall2

/-! Two statements of one shape. Where a parser does not tell the tokens of two statements apart, it does
the same with both of them, step by step, and where it fails it says the same of both. -/
namespace DdlSchema

/-- Errors of one kind that say the same, each of what comes next in its own statement. -/
inductive Error.Agree : Option Token → Option Token → Error → Error → Prop where
  | unexpectedToken (t u : Token) (expected : List String) : Agree (some t) (some u)
    (.parse (.unexpectedToken t.describe t.span expected))
    (.parse (.unexpectedToken u.describe u.span expected))
  | unexpectedEnd (expected : List String) :
    Agree none none (.parse (.unexpectedEnd expected)) (.parse (.unexpectedEnd expected))
  | invalidValue (t u : Token) (reason : String) : Agree (some t) (some u)
    (.parse (.invalidValue t.describe t.span reason))
    (.parse (.invalidValue u.describe u.span reason))
  | conflictAtToken (t u : Token) (table : String) : Agree (some t) (some u)
    (.parse (.conflictingPrimaryKey table (some t.span)))
    (.parse (.conflictingPrimaryKey table (some u.span)))
  | conflict (next next' : Option Token) (table : String) : Agree next next'
    (.parse (.conflictingPrimaryKey table none)) (.parse (.conflictingPrimaryKey table none))
  | draft (next next' : Option Token) (e : DraftError) : Agree next next' (.draft e) (.draft e)
  | ambiguous (next next' : Option Token) (nodes : List String) : Agree next next'
    (.ambiguous ((next.map Token.describe).getD "end of input") nodes (next.map Token.span))
    (.ambiguous ((next'.map Token.describe).getD "end of input") nodes (next'.map Token.span))
  | fuelExhausted (next next' : Option Token) (limit : Nat) :
    Agree next next' (.fuelExhausted limit) (.fuelExhausted limit)

/-- Outcomes with one draft that both come to their end, or fail with errors that agree. -/
structure Outcome.Agree {ε : Type} (toError : ε → Error) (next next' : Option Token)
    (o o' : Outcome ε) : Prop where
  draft : o.draft = o'.draft
  verdict : o.verdict = .ok () ∧ o'.verdict = .ok () ∨ ∃ e e', o.verdict = .error e ∧
    o'.verdict = .error e' ∧ Error.Agree next next' (toError e) (toError e')

theorem Outcome.Agree.refl_ok {ε : Type} (toError : ε → Error) (next next' : Option Token)
    (d : Draft) : Outcome.Agree toError next next' ⟨d, .ok ()⟩ ⟨d, .ok ()⟩ := ⟨rfl, .inl ⟨rfl, rfl⟩⟩

theorem Outcome.Agree.of_draft (next next' : Option Token) (e : DraftError) (d : Draft) :
    Outcome.Agree HookError.toError next next' ⟨d, .error (.draft e)⟩ ⟨d, .error (.draft e)⟩ :=
  ⟨rfl, .inr ⟨_, _, rfl, rfl, .draft next next' e⟩⟩

theorem Outcome.Agree.of_rejected {next next' : Option Token} {e e' : ParseError}
    (h : Error.Agree next next' (.parse e) (.parse e')) (d : Draft) :
    Outcome.Agree HookError.toError next next' ⟨d, .error (.rejected e)⟩
      ⟨d, .error (.rejected e')⟩ := ⟨rfl, .inr ⟨_, _, rfl, rfl, h⟩⟩

theorem Outcome.Agree.kept_eq {ε : Type} {toError : ε → Error} {next next' : Option Token}
    {o o' : Outcome ε} (h : o.Agree toError next next' o') : o.kept = o'.kept := by
  obtain ⟨hdraft, ⟨ho, ho'⟩ | ⟨e, e', ho, ho', -⟩⟩ := h
  · rw [kept_of_ok ho, kept_of_ok ho', hdraft]
  · rw [kept_of_error ho, kept_of_error ho']

/-- What hooks see of two statements whose tokens are related. -/
structure Context.Alike (R : Token → Token → Prop) (c c' : Context) : Prop where
  token : Option.Rel R c.token c'.token
  remaining : List.Forall₂ R c.remaining c'.remaining

namespace Parser

variable {Hook : Type} (p : Parser Hook)

/-- The number of tokens in front of the one that the last step looks at. -/
def position : Nat → List Nat → List Token → Draft → Nat
  | 0, _, _, _ => 0
  | fuel + 1, candidates, tokens, d =>
    match p.select candidates tokens.head? with
    | .error _ => 0
    | .ok id =>
      let entered := p.enter id tokens d
      match entered.verdict with
      | .error _ => 0
      | .ok () =>
        let node := p.graph.node id
        if node.kind = .finish then 0
        else if node.kind.consumes then
          position fuel node.successors tokens.tail entered.draft + 1
        else position fuel node.successors tokens entered.draft

/-- Where a statement ends or fails. -/
def stop (tokens : List Token) (d : Draft) : Nat := p.position p.fuel [p.graph.root] tokens d

section Position

variable {p} {fuel : Nat} {candidates : List Nat} {tokens : List Token} {d : Draft} {id : Nat}

theorem position_refused {e : Error} (hid : p.select candidates tokens.head? = .error e) :
    p.position (fuel + 1) candidates tokens d = 0 := by simp only [position, hid]

theorem position_failed {e : HookError} (hid : p.select candidates tokens.head? = .ok id)
    (he : (p.enter id tokens d).verdict = .error e) :
    p.position (fuel + 1) candidates tokens d = 0 := by simp only [position, hid, he]

theorem position_finished (hid : p.select candidates tokens.head? = .ok id)
    (he : (p.enter id tokens d).verdict = .ok ()) (hk : (p.graph.node id).kind = .finish) :
    p.position (fuel + 1) candidates tokens d = 0 := by
  simp only [position, hid, he, hk, if_pos]

theorem position_moved (hid : p.select candidates tokens.head? = .ok id)
    (he : (p.enter id tokens d).verdict = .ok ()) (hk : (p.graph.node id).kind ≠ .finish) :
    p.position (fuel + 1) candidates tokens d =
      if (p.graph.node id).kind.consumes then
        p.position fuel (p.graph.node id).successors tokens.tail (p.enter id tokens d).draft + 1
      else p.position fuel (p.graph.node id).successors tokens (p.enter id tokens d).draft := by
  simp only [position, hid, he, hk, if_false]

end Position

/-- A parser that does not tell related tokens apart, wherever it has to look at them. -/
structure Blind (R : Token → Token → Prop) : Prop where
  fits {next next' : Option Token} (h : Option.Rel R next next') (id : Nat) :
    p.fits next id = p.fits next' id
  act {c c' : Context} (h : c.Alike R c') {id : Nat} {hook : Hook}
    (hhook : (p.graph.node id).hook = some hook) (haccepts : p.accepts c.token id = true)
    (d : Draft) : (p.act hook c d).Agree HookError.toError c.token c'.token (p.act hook c' d)

namespace Blind

variable {p} {R : Token → Token → Prop} (hp : p.Blind R)

theorem rel_head? {ts us : List Token} (h : List.Forall₂ R ts us) :
    Option.Rel R ts.head? us.head? := by
  cases h with
  | nil => exact .none
  | cons h _ => exact .some h

theorem forall₂_tail {ts us : List Token} (h : List.Forall₂ R ts us) :
    List.Forall₂ R ts.tail us.tail := by
  cases h with
  | nil => exact .nil
  | cons _ h => exact h

include hp

theorem accepts_eq {next next' : Option Token} (h : Option.Rel R next next') :
    p.accepts next = p.accepts next' := by
  have hfits : p.fits next = p.fits next' := funext fun id => hp.fits h id
  funext id
  rw [accepts, accepts, hfits]

theorem select_agree {next next' : Option Token} (h : Option.Rel R next next')
    (candidates : List Nat) :
    (∃ id, p.select candidates next = .ok id ∧ p.select candidates next' = .ok id) ∨
      ∃ e e', p.select candidates next = .error e ∧ p.select candidates next' = .error e' ∧
        Error.Agree next next' e e' := by
  unfold select
  rw [hp.accepts_eq h]
  match candidates.filter (p.accepts next') with
  | [id] => exact .inl ⟨id, rfl, rfl⟩
  | [] =>
    cases h with
    | none => exact .inr ⟨_, _, rfl, rfl, .unexpectedEnd _⟩
    | some h => exact .inr ⟨_, _, rfl, rfl, .unexpectedToken _ _ _⟩
  | a :: b :: more => exact .inr ⟨_, _, rfl, rfl, .ambiguous _ _ _⟩

omit hp in
theorem alike_context {ts us : List Token} (h : List.Forall₂ R ts us) (id : Nat) :
    (p.context id ts).Alike R (p.context id us) := by
  refine ⟨rel_head? h, ?_⟩
  unfold context
  split
  · exact forall₂_tail h
  · exact h

theorem enter_agree {ts us : List Token} (h : List.Forall₂ R ts us) {id : Nat}
    (haccepts : p.accepts ts.head? id = true) (d : Draft) :
    (p.enter id ts d).Agree HookError.toError ts.head? us.head? (p.enter id us d) := by
  unfold enter
  cases hhook : (p.graph.node id).hook with
  | none => exact .refl_ok _ _ _ d.tick
  | some hook => exact hp.act (alike_context h id) hhook haccepts d.tick

/-- Two statements that the parser does not tell apart stop at one place. -/
theorem walk_agree (fuel : Nat) (candidates : List Nat) {ts us : List Token}
    (h : List.Forall₂ R ts us) (d : Draft) :
    p.position fuel candidates ts d = p.position fuel candidates us d ∧
      (p.walk fuel candidates ts d).Agree (fun e => e) ts[p.position fuel candidates ts d]?
        us[p.position fuel candidates ts d]? (p.walk fuel candidates us d) := by
  induction fuel generalizing candidates ts us d with
  | zero => exact ⟨rfl, rfl, .inr ⟨_, _, rfl, rfl, .fuelExhausted _ _ p.fuel⟩⟩
  | succ fuel ih =>
    have hhead := rel_head? h
    rcases hp.select_agree hhead candidates with ⟨id, hid, hid'⟩ | ⟨e, e', he, he', hagree⟩
    · obtain ⟨hdraft, ⟨hok, hok'⟩ | ⟨e, e', he, he', hagree⟩⟩ :=
        hp.enter_agree h (accepts_of_select hid) d
      · by_cases hk : (p.graph.node id).kind = .finish
        · rw [position_finished hid hok hk, position_finished hid' hok' hk,
            walk_finished hid hok hk, walk_finished hid' hok' hk, hdraft]
          exact ⟨rfl, .refl_ok _ _ _ _⟩
        · -- One draft goes on with both statements. Positions count from the tokens that are left.
          rw [position_moved hid hok hk, position_moved hid' hok' hk, walk_moved hid hok hk,
            walk_moved hid' hok' hk, hdraft]
          by_cases hconsumes : (p.graph.node id).kind.consumes = true
          · obtain ⟨hposition, hrest⟩ := ih (p.graph.node id).successors (forall₂_tail h)
              (p.enter id us d).draft
            rw [List.getElem?_tail, List.getElem?_tail] at hrest
            simp only [hconsumes, if_true]
            exact ⟨congrArg (· + 1) hposition, hrest⟩
          · simp only [hconsumes]
            exact ih _ h _
      · rw [position_failed hid he, position_failed hid' he', walk_failed hid he,
          walk_failed hid' he', hdraft, ← List.head?_eq_getElem?, ← List.head?_eq_getElem?]
        exact ⟨rfl, rfl, .inr ⟨_, _, rfl, rfl, hagree⟩⟩
    · rw [position_refused he, position_refused he', walk_refused he, walk_refused he',
        ← List.head?_eq_getElem?, ← List.head?_eq_getElem?]
      exact ⟨rfl, rfl, .inr ⟨_, _, rfl, rfl, hagree⟩⟩

theorem parseTokens_agree {ts us : List Token} (h : List.Forall₂ R ts us) (d : Draft) :
    p.stop ts d = p.stop us d ∧ (p.parseTokens ts d).Agree (fun e => e) ts[p.stop ts d]?
      us[p.stop ts d]? (p.parseTokens us d) := by
  obtain ⟨hstop, hdraft, ⟨hok, hok'⟩ | ⟨e, e', he, he', hagree⟩⟩ :=
    hp.walk_agree p.fuel [p.graph.root] h d
  · rw [parseTokens_of_ok p hok, parseTokens_of_ok p hok']
    exact ⟨hstop, hdraft, .inl ⟨hok, hok'⟩⟩
  · rw [parseTokens_of_error p he, parseTokens_of_error p he', hdraft]
    exact ⟨hstop, rfl, .inr ⟨e, e', rfl, rfl, hagree⟩⟩

end Blind

end Parser
end DdlSchema
