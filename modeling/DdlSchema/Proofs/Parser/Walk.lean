import DdlSchema.Parser.Basic
import Mathlib.Logic.Relation

/-! Walks step by step: what one step does, how many steps there are, and that more fuel changes
nothing once a walk has come to its end. -/
namespace DdlSchema

namespace Outcome

variable {ε : Type} {o : Outcome ε}

/-- The draft of a work that came to its end. -/
def kept (o : Outcome ε) : Option Draft :=
  match o.verdict with
  | .ok () => some o.draft
  | .error _ => none

theorem kept_of_error {e : ε} (h : o.verdict = .error e) : o.kept = none := by rw [kept, h]

theorem kept_of_ok (h : o.verdict = .ok ()) : o.kept = some o.draft := by rw [kept, h]

theorem eq_of_parts {clauses : List Clause} {version : Nat} {verdict : Except ε Unit}
    (hclauses : o.draft.clauses = clauses) (hversion : o.draft.version = version)
    (hverdict : o.verdict = verdict) : o = ⟨⟨clauses, version⟩, verdict⟩ := by
  subst hclauses hversion hverdict
  rfl

end Outcome

namespace Parser

variable {Hook : Type} (p : Parser Hook)

/-- The nodes that a walk enters, in order. -/
def trace : Nat → List Nat → List Token → Draft → List Nat
  | 0, _, _, _ => []
  | fuel + 1, candidates, tokens, d =>
    match p.select candidates tokens.head? with
    | .error _ => []
    | .ok id =>
      let entered := p.enter id tokens d
      let node := p.graph.node id
      id :: match entered.verdict with
        | .error _ => []
        | .ok () =>
          if node.kind = .finish then []
          else trace fuel node.successors (if node.kind.consumes then tokens.tail else tokens)
            entered.draft

section Step

variable {p} {fuel : Nat} {candidates : List Nat} {tokens : List Token} {d : Draft} {id : Nat}

attribute [local simp] walk trace

theorem walk_refused {e : Error} (hid : p.select candidates tokens.head? = .error e) :
    p.walk (fuel + 1) candidates tokens d = ⟨d, .error e⟩ := by simp [hid]

theorem walk_failed {e : HookError} (hid : p.select candidates tokens.head? = .ok id)
    (he : (p.enter id tokens d).verdict = .error e) :
    p.walk (fuel + 1) candidates tokens d =
      ⟨(p.enter id tokens d).draft, .error e.toError⟩ := by simp [hid, he]

theorem walk_finished (hid : p.select candidates tokens.head? = .ok id)
    (he : (p.enter id tokens d).verdict = .ok ()) (hk : (p.graph.node id).kind = .finish) :
    p.walk (fuel + 1) candidates tokens d = ⟨(p.enter id tokens d).draft, .ok ()⟩ := by
  simp [hid, he, hk]

theorem walk_moved (hid : p.select candidates tokens.head? = .ok id)
    (he : (p.enter id tokens d).verdict = .ok ()) (hk : (p.graph.node id).kind ≠ .finish) :
    p.walk (fuel + 1) candidates tokens d =
      p.walk fuel (p.graph.node id).successors
        (if (p.graph.node id).kind.consumes then tokens.tail else tokens)
        (p.enter id tokens d).draft := by
  simp [hid, he, hk]

theorem trace_refused {e : Error} (hid : p.select candidates tokens.head? = .error e) :
    p.trace (fuel + 1) candidates tokens d = [] := by simp [hid]

theorem trace_failed {e : HookError} (hid : p.select candidates tokens.head? = .ok id)
    (he : (p.enter id tokens d).verdict = .error e) :
    p.trace (fuel + 1) candidates tokens d = [id] := by simp [hid, he]

theorem trace_finished (hid : p.select candidates tokens.head? = .ok id)
    (he : (p.enter id tokens d).verdict = .ok ()) (hk : (p.graph.node id).kind = .finish) :
    p.trace (fuel + 1) candidates tokens d = [id] := by
  simp [hid, he, hk]

theorem trace_moved (hid : p.select candidates tokens.head? = .ok id)
    (he : (p.enter id tokens d).verdict = .ok ()) (hk : (p.graph.node id).kind ≠ .finish) :
    p.trace (fuel + 1) candidates tokens d =
      id :: p.trace fuel (p.graph.node id).successors
        (if (p.graph.node id).kind.consumes then tokens.tail else tokens)
        (p.enter id tokens d).draft := by
  simp [hid, he, hk]

end Step

/-- What one step of a walk can be. -/
inductive Step (candidates : List Nat) (tokens : List Token) (d : Draft) : Prop where
  | refused {e : Error} (hid : p.select candidates tokens.head? = .error e)
  | failed {id : Nat} {e : HookError} (hid : p.select candidates tokens.head? = .ok id)
    (he : (p.enter id tokens d).verdict = .error e)
  | finished {id : Nat} (hid : p.select candidates tokens.head? = .ok id)
    (he : (p.enter id tokens d).verdict = .ok ()) (hk : (p.graph.node id).kind = .finish)
  | moved {id : Nat} (hid : p.select candidates tokens.head? = .ok id)
    (he : (p.enter id tokens d).verdict = .ok ()) (hk : (p.graph.node id).kind ≠ .finish)

theorem step (candidates : List Nat) (tokens : List Token) (d : Draft) :
    p.Step candidates tokens d := by
  cases hid : p.select candidates tokens.head? with
  | error e => exact .refused hid
  | ok id =>
    cases he : (p.enter id tokens d).verdict with
    | error e => exact .failed hid he
    | ok u =>
      by_cases hk : (p.graph.node id).kind = .finish
      · exact .finished hid he hk
      · exact .moved hid he hk

/-- The version counts the nodes entered, whatever becomes of the statement. -/
theorem version_walk (hact : ∀ hook context d, (p.act hook context d).draft.version = d.version)
    (fuel : Nat) (candidates : List Nat) (tokens : List Token) (d : Draft) :
    (p.walk fuel candidates tokens d).draft.version =
      d.version + (p.trace fuel candidates tokens d).length := by
  have henter (id : Nat) (tokens : List Token) (d : Draft) :
      (p.enter id tokens d).draft.version = d.version + 1 := by
    unfold enter
    split
    · rfl
    · rw [hact]; rfl
  induction fuel generalizing candidates tokens d with
  | zero => rfl
  | succ fuel ih =>
    cases p.step candidates tokens d with
    | refused hid => rw [walk_refused hid, trace_refused hid]; rfl
    | @failed id e hid he =>
      rw [walk_failed hid he, trace_failed hid he]
      exact henter id tokens d
    | @finished id hid he hk =>
      rw [walk_finished hid he hk, trace_finished hid he hk]
      exact henter id tokens d
    | moved hid he hk =>
      rw [walk_moved hid he hk, trace_moved hid he hk, ih, henter, List.length_cons]
      omega

/-- A walk that has not run out of fuel goes the same way with more. The limit shows in the error of a walk
that does, and nowhere else. -/
theorem walk_limit (limit fuel more : Nat) (candidates : List Nat) (tokens : List Token) (d : Draft)
    (h : (p.walk fuel candidates tokens d).verdict ≠ .error (.fuelExhausted p.fuel)) :
    ({ p with fuel := limit } : Parser Hook).walk (fuel + more) candidates tokens d =
      p.walk fuel candidates tokens d := by
  induction fuel generalizing candidates tokens d with
  | zero => exact absurd rfl h
  | succ fuel ih =>
    rw [Nat.add_right_comm]
    cases p.step candidates tokens d with
    | refused hid => rw [walk_refused hid, walk_refused (p := { p with fuel := limit }) hid]
    | failed hid he =>
      rw [walk_failed hid he, walk_failed (p := { p with fuel := limit }) hid he]
      rfl
    | finished hid he hk =>
      rw [walk_finished hid he hk, walk_finished (p := { p with fuel := limit }) hid he hk]
      rfl
    | moved hid he hk =>
      rw [walk_moved hid he hk] at h
      rw [walk_moved hid he hk, walk_moved (p := { p with fuel := limit }) hid he hk]
      exact ih _ _ _ h

theorem walk_add (fuel more : Nat) (candidates : List Nat) (tokens : List Token) (d : Draft)
    (h : (p.walk fuel candidates tokens d).verdict ≠ .error (.fuelExhausted p.fuel)) :
    p.walk (fuel + more) candidates tokens d = p.walk fuel candidates tokens d :=
  p.walk_limit p.fuel fuel more candidates tokens d h

theorem kept_parseTokens (tokens : List Token) (d : Draft) :
    (p.parseTokens tokens d).kept = (p.walk p.fuel [p.graph.root] tokens d).kept := by
  unfold parseTokens
  cases h : (p.walk p.fuel [p.graph.root] tokens d).verdict with
  | error e => simp [Outcome.kept, h]
  | ok u => simp only [h]

theorem trace_length_le (fuel : Nat) (candidates : List Nat) (tokens : List Token) (d : Draft) :
    (p.trace fuel candidates tokens d).length ≤ fuel := by
  induction fuel generalizing candidates tokens d with
  | zero => exact Nat.le_refl 0
  | succ fuel ih =>
    cases p.step candidates tokens d with
    | refused hid => rw [trace_refused hid]; exact Nat.zero_le _
    | failed hid he => rw [trace_failed hid he]; exact Nat.succ_le_succ (Nat.zero_le _)
    | finished hid he hk => rw [trace_finished hid he hk]; exact Nat.succ_le_succ (Nat.zero_le _)
    | moved hid he hk => rw [trace_moved hid he hk]; exact Nat.succ_le_succ (ih _ _ _)

theorem select_of_trace {fuel : Nat} {candidates : List Nat} {tokens : List Token} {d : Draft}
    {id : Nat} {more : List Nat} (h : p.trace fuel candidates tokens d = id :: more) :
    p.select candidates tokens.head? = .ok id := by
  cases fuel with
  | zero => cases h
  | succ fuel =>
    cases p.step candidates tokens d with
    | refused hid => rw [trace_refused hid] at h; cases h
    | failed hid he => rw [trace_failed hid he] at h; rw [hid, (List.cons.inj h).1]
    | finished hid he hk => rw [trace_finished hid he hk] at h; rw [hid, (List.cons.inj h).1]
    | moved hid he hk => rw [trace_moved hid he hk] at h; rw [hid, (List.cons.inj h).1]

/-- Behind a node that is not the last one, a trace goes on from the successors of the node. -/
theorem trace_tail {fuel : Nat} {candidates : List Nat} {tokens : List Token} {d : Draft} {id : Nat}
    {more : List Nat} (h : p.trace fuel candidates tokens d = id :: more) (hmore : more ≠ []) :
    (p.graph.node id).kind ≠ .finish ∧ ∃ fuel' d', more = p.trace fuel' (p.graph.node id).successors
      (if (p.graph.node id).kind.consumes then tokens.tail else tokens) d' := by
  cases fuel with
  | zero => cases h
  | succ fuel =>
    cases p.step candidates tokens d with
    | refused hid => rw [trace_refused hid] at h; cases h
    | failed hid he => rw [trace_failed hid he] at h; exact absurd (List.cons.inj h).2.symm hmore
    | finished hid he hk =>
      rw [trace_finished hid he hk] at h
      exact absurd (List.cons.inj h).2.symm hmore
    | moved hid he hk =>
      rw [trace_moved hid he hk] at h
      obtain ⟨rfl, rfl⟩ := List.cons.inj h
      exact ⟨hk, _, _, rfl⟩

/-- The rest of a trace is a trace over the tokens that its first part leaves. -/
theorem trace_append {fuel : Nat} {candidates : List Nat} {tokens : List Token} {d : Draft}
    {front rest : List Nat} (h : p.trace fuel candidates tokens d = front ++ rest) :
    ∃ fuel' candidates' d', rest = p.trace fuel' candidates'
      (tokens.drop (front.countP fun id => (p.graph.node id).kind.consumes)) d' := by
  induction front generalizing fuel candidates tokens d with
  | nil => exact ⟨fuel, candidates, d, h.symm⟩
  | cons id front ih =>
    by_cases hnil : front ++ rest = []
    · exact ⟨0, [], d, (List.append_eq_nil_iff.1 hnil).2⟩
    · obtain ⟨-, fuel', d', htail⟩ := p.trace_tail h hnil
      obtain ⟨fuel'', candidates', d'', hrest⟩ := ih htail.symm
      refine ⟨fuel'', candidates', d'', hrest.trans ?_⟩
      by_cases hk : (p.graph.node id).kind.consumes = true
      · simp [hk]
      · simp [hk]

/-- The nodes that a statement enters. -/
def transitions (tokens : List Token) (d : Draft) : List Nat :=
  p.trace p.fuel [p.graph.root] tokens d

theorem version_parseTokens (hact : ∀ hook context d, (p.act hook context d).draft.version = d.version)
    (tokens : List Token) (d : Draft) :
    (p.parseTokens tokens d).draft.version = d.version + (p.transitions tokens d).length := by
  have hwalk := p.version_walk hact p.fuel [p.graph.root] tokens d
  unfold parseTokens
  cases h : (p.walk p.fuel [p.graph.root] tokens d).verdict with
  | error e => simp only [h]; exact hwalk
  | ok u => simp only [h]; exact hwalk

theorem parseTokens_of_ok {tokens : List Token} {d : Draft}
    (h : (p.walk p.fuel [p.graph.root] tokens d).verdict = .ok ()) :
    p.parseTokens tokens d = p.walk p.fuel [p.graph.root] tokens d := by
  unfold parseTokens
  simp only [h]

theorem parseTokens_of_error {tokens : List Token} {d : Draft} {e : Error}
    (h : (p.walk p.fuel [p.graph.root] tokens d).verdict = .error e) :
    p.parseTokens tokens d =
      ⟨(p.walk p.fuel [p.graph.root] tokens d).draft.rollback d.clauses.length, .error e⟩ := by
  unfold parseTokens
  simp only [h]

theorem verdict_parseTokens (tokens : List Token) (d : Draft) :
    (p.parseTokens tokens d).verdict = (p.walk p.fuel [p.graph.root] tokens d).verdict := by
  cases h : (p.walk p.fuel [p.graph.root] tokens d).verdict with
  | error e => rw [parseTokens_of_error p h]
  | ok u => rw [parseTokens_of_ok p h, h]

/-- Statements fed into one draft. Those that fail leave no clause. -/
def feed (sqls : List String) (d : Draft) : Draft :=
  sqls.foldl (fun d sql => (p.parseInto sql d).draft) d

end Parser

/-- Where a statement stands between two steps: what can be selected, the tokens that are left, and the
draft. -/
structure Situation where
  candidates : List Nat
  tokens : List Token
  draft : Draft

namespace Situation

def next (s : Situation) : Option Token := s.tokens.head?

end Situation

namespace Parser

variable {Hook : Type} (p : Parser Hook)

/-- The situation behind a node that is entered. -/
def behind (s : Situation) (id : Nat) : Situation where
  candidates := p.graph.successors id
  tokens := if (p.graph.node id).kind.consumes then s.tokens.tail else s.tokens
  draft := (p.enter id s.tokens s.draft).draft

/-- A step after which the walk goes on. -/
inductive Moves : Situation → Situation → Prop where
  | moved {s : Situation} {id : Nat} (hid : p.select s.candidates s.next = .ok id)
    (he : (p.enter id s.tokens s.draft).verdict = .ok ()) (hk : (p.graph.node id).kind ≠ .finish) :
    Moves s (p.behind s id)

/-- Whether a statement comes to a situation. -/
def ComesTo (tokens : List Token) (d : Draft) (s : Situation) : Prop :=
  Relation.ReflTransGen p.Moves ⟨[p.graph.root], tokens, d⟩ s

/-- Whether the node selected in a situation has a hook that fails. -/
def HookFails (s : Situation) (e : HookError) : Prop :=
  ∃ id, p.select s.candidates s.next = .ok id ∧ (p.enter id s.tokens s.draft).verdict = .error e

/-- Steps after which the walk goes on, with the nodes that they enter. -/
inductive Goes : List Nat → Situation → Situation → Prop where
  | stay (s : Situation) : Goes [] s s
  | step {s s' : Situation} {id : Nat} {ids : List Nat}
    (hid : p.select s.candidates s.next = .ok id)
    (he : (p.enter id s.tokens s.draft).verdict = .ok ()) (hk : (p.graph.node id).kind ≠ .finish)
    (h : Goes ids (p.behind s id) s') : Goes (id :: ids) s s'

/-- What becomes of a walk that goes no further, with the node that it enters last. -/
inductive Ends : Nat → Situation → List Nat → Outcome Error → Prop where
  | exhausted (s : Situation) : Ends 0 s [] ⟨s.draft, .error (.fuelExhausted p.fuel)⟩
  | refused {fuel : Nat} {s : Situation} {e : Error}
    (hid : p.select s.candidates s.next = .error e) : Ends (fuel + 1) s [] ⟨s.draft, .error e⟩
  | failed {fuel : Nat} {s : Situation} {e : HookError} {id : Nat}
    (hid : p.select s.candidates s.next = .ok id)
    (he : (p.enter id s.tokens s.draft).verdict = .error e) :
    Ends (fuel + 1) s [id] ⟨(p.enter id s.tokens s.draft).draft, .error e.toError⟩
  | finished {fuel : Nat} {s : Situation} {id : Nat} (hid : p.select s.candidates s.next = .ok id)
    (he : (p.enter id s.tokens s.draft).verdict = .ok ()) (hk : (p.graph.node id).kind = .finish) :
    Ends (fuel + 1) s [id] ⟨(p.enter id s.tokens s.draft).draft, .ok ()⟩

section Situations

variable {p} {s s' : Situation} {ids last : List Nat} {o : Outcome Error}

/-- The situations that a walk comes to are those that its steps lead to. -/
theorem comes_iff_goes : Relation.ReflTransGen p.Moves s s' ↔ ∃ ids, p.Goes ids s s' := by
  constructor
  · intro h
    induction h using Relation.ReflTransGen.head_induction_on with
    | refl => exact ⟨[], .stay s'⟩
    | head hmoves _ ih =>
      obtain ⟨hid, he, hk⟩ := hmoves
      obtain ⟨ids, hgoes⟩ := ih
      exact ⟨_ :: ids, .step hid he hk hgoes⟩
  · rintro ⟨ids, hgoes⟩
    induction hgoes with
    | stay s => exact .refl
    | step hid he hk _ ih => exact ih.head (.moved hid he hk)

theorem Goes.walk_eq (h : p.Goes ids s s') (left : Nat) :
    p.walk (ids.length + left) s.candidates s.tokens s.draft =
        p.walk left s'.candidates s'.tokens s'.draft ∧
      p.trace (ids.length + left) s.candidates s.tokens s.draft =
        ids ++ p.trace left s'.candidates s'.tokens s'.draft := by
  induction h with
  | stay s => simp
  | @step s s' id ids hid he hk h ih =>
    rw [List.length_cons, Nat.add_right_comm, walk_moved hid he hk, trace_moved hid he hk]
    exact ⟨ih.1, congrArg (id :: ·) ih.2⟩

theorem Ends.walk_eq {fuel : Nat} (h : p.Ends fuel s last o) :
    p.walk fuel s.candidates s.tokens s.draft = o ∧
      p.trace fuel s.candidates s.tokens s.draft = last := by
  cases h with
  | exhausted => exact ⟨rfl, rfl⟩
  | refused hid => exact ⟨walk_refused hid, trace_refused hid⟩
  | failed hid he => exact ⟨walk_failed hid he, trace_failed hid he⟩
  | finished hid he hk => exact ⟨walk_finished hid he hk, trace_finished hid he hk⟩

variable (p) in
theorem exists_goes (fuel : Nat) (s : Situation) : ∃ ids s' left last, p.Goes ids s s' ∧
    fuel = ids.length + left ∧ p.Ends left s' last (p.walk fuel s.candidates s.tokens s.draft) := by
  induction fuel generalizing s with
  | zero => exact ⟨[], s, 0, [], .stay s, rfl, .exhausted s⟩
  | succ fuel ih =>
    cases p.step s.candidates s.tokens s.draft with
    | refused hid =>
      rw [walk_refused hid]
      exact ⟨[], s, _, [], .stay s, (Nat.zero_add _).symm, .refused hid⟩
    | @failed id _ hid he =>
      rw [walk_failed hid he]
      exact ⟨[], s, _, [id], .stay s, (Nat.zero_add _).symm, .failed hid he⟩
    | @finished id hid he hk =>
      rw [walk_finished hid he hk]
      exact ⟨[], s, _, [id], .stay s, (Nat.zero_add _).symm, .finished hid he hk⟩
    | @moved id hid he hk =>
      rw [walk_moved hid he hk]
      obtain ⟨ids, s', left, last, hgoes, hfuel, hends⟩ := ih (p.behind s id)
      refine ⟨id :: ids, s', left, last, .step hid he hk hgoes, ?_, hends⟩
      rw [List.length_cons, hfuel, Nat.add_right_comm]

end Situations

/-- A walk, whatever its hooks do: it goes from situation to situation, a step of fuel for each node of
its trace, and ends where the fuel is used up, nothing can be selected, a hook fails, or an end node is
entered. -/
theorem walk_eq_iff (fuel : Nat) (s : Situation) (ids : List Nat) (o : Outcome Error) :
    (p.walk fuel s.candidates s.tokens s.draft = o ∧
      p.trace fuel s.candidates s.tokens s.draft = ids) ↔
    ∃ front s' left last, p.Goes front s s' ∧ fuel = front.length + left ∧ p.Ends left s' last o ∧
      ids = front ++ last := by
  constructor
  · rintro ⟨rfl, rfl⟩
    obtain ⟨front, s', left, last, hgoes, rfl, hends⟩ := p.exists_goes fuel s
    refine ⟨front, s', left, last, hgoes, rfl, hends, ?_⟩
    rw [(hgoes.walk_eq left).2, hends.walk_eq.2]
  · rintro ⟨front, s', left, last, hgoes, rfl, hends, rfl⟩
    obtain ⟨hwalk, htrace⟩ := hgoes.walk_eq left
    exact ⟨hwalk.trans hends.walk_eq.1, by rw [htrace, hends.walk_eq.2]⟩

/-- A walk fails for want of fuel, or in a situation that it comes to, where a hook fails or nothing can
be selected. -/
theorem walk_error_cases (fuel : Nat) (s : Situation) (e : Error)
    (h : (p.walk fuel s.candidates s.tokens s.draft).verdict = .error e) :
    e = .fuelExhausted p.fuel ∨ ∃ s', Relation.ReflTransGen p.Moves s s' ∧
      ((∃ e', e'.toError = e ∧ p.HookFails s' e') ∨ p.select s'.candidates s'.next = .error e) := by
  obtain ⟨ids, s', left, last, hgoes, -, hends⟩ := p.exists_goes fuel s
  generalize p.walk fuel s.candidates s.tokens s.draft = o at h hends
  cases hends with
  | exhausted => exact .inl (Except.error.inj h).symm
  | @refused _ _ e' hid =>
    obtain rfl : e' = e := Except.error.inj h
    exact .inr ⟨s', comes_iff_goes.2 ⟨ids, hgoes⟩, .inr hid⟩
  | @failed _ _ e' id hid he =>
    exact .inr ⟨s', comes_iff_goes.2 ⟨ids, hgoes⟩, .inl ⟨e', Except.error.inj h, id, hid, he⟩⟩
  | finished => cases h

theorem parseTokens_error_cases {tokens : List Token} {d : Draft} {e : Error}
    (h : (p.parseTokens tokens d).verdict = .error e) : e = .fuelExhausted p.fuel ∨
      ∃ s, p.ComesTo tokens d s ∧
        ((∃ e', e'.toError = e ∧ p.HookFails s e') ∨ p.select s.candidates s.next = .error e) := by
  rw [verdict_parseTokens] at h
  exact p.walk_error_cases p.fuel ⟨[p.graph.root], tokens, d⟩ e h

end Parser
end DdlSchema
