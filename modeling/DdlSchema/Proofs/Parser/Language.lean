import DdlSchema.Proofs.Parser.Fuel

/-! The language of a graph. Without hooks, a statement is parsed along its only run through the graph,
and a statement that has a run is never refused. -/
namespace DdlSchema
namespace Parser

variable {Hook : Type} (p : Parser Hook)

/-- Whether the consuming nodes of a path take the tokens one by one. -/
def Takes (path : List Nat) (tokens : List Token) : Prop :=
  List.Forall₂ (fun id token => (p.graph.node id).kind.accepts token.kind p.reserved = true)
    (path.filter fun id => (p.graph.node id).kind.consumes) tokens

/-- A run of a statement from one of some candidates on: a path to the first end node on it that takes
the tokens. -/
structure IsRun (candidates : List Nat) (tokens : List Token) (path : List Nat) : Prop where
  starts : ∀ id ∈ path.head?, id ∈ candidates
  linked : path.IsChain fun a b => b ∈ p.graph.successors a
  ends : ∃ front id, path = front ++ [id] ∧ (p.graph.node id).kind = .finish ∧
    ∀ x ∈ front, (p.graph.node x).kind ≠ .finish
  takes : p.Takes path tokens

/-- Runs node by node. -/
inductive Runs : List Nat → List Token → List Nat → Prop
  | ended {candidates : List Nat} {id : Nat} (hid : id ∈ candidates)
    (hk : (p.graph.node id).kind = .finish) : Runs candidates [] [id]
  | passed {candidates : List Nat} {tokens : List Token} {id : Nat} {path : List Nat}
    (hid : id ∈ candidates) (hk : (p.graph.node id).kind = .idle)
    (h : Runs (p.graph.node id).successors tokens path) : Runs candidates tokens (id :: path)
  | taken {candidates : List Nat} {token : Token} {tokens : List Token} {id : Nat} {path : List Nat}
    (hid : id ∈ candidates)
    (hk : (p.graph.node id).kind.accepts token.kind p.reserved = true)
    (h : Runs (p.graph.node id).successors tokens path) : Runs candidates (token :: tokens) (id :: path)

variable {p} {candidates : List Nat} {tokens : List Token} {path : List Nat}

section Description

theorem takes_of_consumes {id : Nat} (hk : (p.graph.node id).kind.consumes = true) :
    p.Takes (id :: path) tokens ↔ ∃ t rest, (p.graph.node id).kind.accepts t.kind p.reserved = true ∧
      p.Takes path rest ∧ tokens = t :: rest := by
  simp only [Takes, List.filter_cons, hk, if_true, List.forall₂_cons_left_iff]

theorem takes_of_not_consumes {id : Nat} (hk : (p.graph.node id).kind.consumes ≠ true) :
    p.Takes (id :: path) tokens ↔ p.Takes path tokens := by
  simp only [Takes, List.filter_cons, hk, Bool.false_eq_true, if_false]

theorem Runs.exists_cons (h : p.Runs candidates tokens path) :
    ∃ id rest, path = id :: rest ∧ id ∈ candidates := by
  cases h with
  | ended hid hk => exact ⟨_, _, rfl, hid⟩
  | passed hid hk h => exact ⟨_, _, rfl, hid⟩
  | taken hid hk h => exact ⟨_, _, rfl, hid⟩

theorem IsRun.cons {id : Nat} {tokens' : List Token} (hid : id ∈ candidates)
    (hfinish : (p.graph.node id).kind ≠ .finish) (htakes : p.Takes (id :: path) tokens)
    (h : p.IsRun (p.graph.node id).successors tokens' path) :
    p.IsRun candidates tokens (id :: path) where
  starts := by simpa using hid
  linked := h.linked.cons h.starts
  ends := by
    obtain ⟨front, e, rfl, he, hfront⟩ := h.ends
    exact ⟨id :: front, e, rfl, he, List.forall_mem_cons.2 ⟨hfinish, hfront⟩⟩
  takes := htakes

theorem Runs.isRun (h : p.Runs candidates tokens path) : p.IsRun candidates tokens path := by
  induction h with
  | @ended candidates id hid hk =>
    refine ⟨by simpa using hid, .singleton id, ⟨[], id, rfl, hk, by simp⟩, ?_⟩
    exact (takes_of_not_consumes (by simp [hk, NodeKind.consumes])).2 .nil
  | passed hid hk h ih =>
    refine ih.cons hid (by simp [hk]) ((takes_of_not_consumes ?_).2 ih.takes)
    simp [hk, NodeKind.consumes]
  | taken hid hk h ih =>
    have hconsumes := NodeKind.consumes_of_accepts hk
    have htakes := (takes_of_consumes hconsumes).2 ⟨_, _, hk, ih.takes, rfl⟩
    refine ih.cons hid (fun hfinish => ?_) htakes
    rw [hfinish] at hconsumes
    cases hconsumes

theorem IsRun.runs (h : p.IsRun candidates tokens path) : p.Runs candidates tokens path := by
  obtain ⟨front, e, rfl, he, hfront⟩ := h.ends
  induction front generalizing candidates tokens with
  | nil =>
    have htakes := (takes_of_not_consumes (by simp [he, NodeKind.consumes])).1 h.takes
    cases htakes
    exact .ended (h.starts e rfl) he
  | cons id front ih =>
    have hid := h.starts id rfl
    obtain ⟨hstarts, hlinked⟩ := List.isChain_cons.1 h.linked
    obtain ⟨hfinish, hrest⟩ := List.forall_mem_cons.1 hfront
    have hends : ∃ front' e', front ++ [e] = front' ++ [e'] ∧ (p.graph.node e').kind = .finish ∧
        ∀ x ∈ front', (p.graph.node x).kind ≠ .finish := ⟨front, e, rfl, he, hrest⟩
    by_cases hk : (p.graph.node id).kind.consumes = true
    · obtain ⟨t, rest, haccepts, htakes, rfl⟩ := (takes_of_consumes hk).1 h.takes
      exact .taken hid haccepts (ih ⟨hstarts, hlinked, hends, htakes⟩ hrest)
    · have htakes := (takes_of_not_consumes hk).1 h.takes
      exact .passed hid (NodeKind.eq_idle hfinish hk) (ih ⟨hstarts, hlinked, hends, htakes⟩ hrest)

end Description

/-- The next token of a run is accepted by its next node. -/
theorem Runs.accepts {id : Nat} {rest : List Nat} (h : p.Runs candidates tokens (id :: rest)) :
    p.accepts tokens.head? id = true := by
  generalize hpath : id :: rest = path at h
  induction h generalizing id rest with
  | ended hid hk =>
    cases hpath
    rw [accepts_of_ne_idle (by rw [hk]; nofun), fits_of_finish hk]
    rfl
  | passed hid hk h ih =>
    cases hpath
    obtain ⟨s, more, rfl, hs⟩ := h.exists_cons
    exact (accepts_of_idle hk).2 ⟨s, hs, ih rfl⟩
  | @taken candidates token tokens id path hid hk h ih =>
    cases hpath
    have hconsumes := NodeKind.consumes_of_accepts hk
    rw [accepts_of_ne_idle (by intro hidle; rw [hidle] at hconsumes; cases hconsumes)]
    exact (fits_of_consumes hconsumes).2 ⟨token, rfl, hk⟩

/-- Where one candidate is selected, a run goes there. -/
theorem Runs.head_eq {id c : Nat} {rest : List Nat} (h : p.Runs candidates tokens (c :: rest))
    (hid : p.select candidates tokens.head? = .ok id) : c = id := by
  obtain ⟨c', rest', hcons, hc⟩ := h.exists_cons
  cases hcons
  exact eq_of_select hid hc h.accepts

/-- Behind a node that does not end it, a run goes on with the tokens that the node leaves. -/
theorem Runs.tail {id : Nat} {rest : List Nat} (h : p.Runs candidates tokens (id :: rest))
    (hk : (p.graph.node id).kind ≠ .finish) : p.Runs (p.graph.node id).successors
      (if (p.graph.node id).kind.consumes then tokens.tail else tokens) rest := by
  cases h with
  | ended hid hfinish => exact absurd hfinish hk
  | passed hid hidle h => simpa [hidle, NodeKind.consumes] using h
  | taken hid haccepts h => simpa [NodeKind.consumes_of_accepts haccepts] using h

theorem Runs.eq_singleton {id : Nat} {rest : List Nat} (h : p.Runs candidates tokens (id :: rest))
    (hk : (p.graph.node id).kind = .finish) : rest = [] := by
  cases h with
  | ended hid hfinish => rfl
  | passed hid hidle h => rw [hk] at hidle; cases hidle
  | taken hid haccepts h => rw [hk] at haccepts; cases haccepts

/-- A walk that comes to its end has gone along a run. -/
theorem runs_trace (fuel : Nat) (candidates : List Nat) (tokens : List Token) (d : Draft)
    (h : (p.walk fuel candidates tokens d).verdict = .ok ()) :
    p.Runs candidates tokens (p.trace fuel candidates tokens d) := by
  induction fuel generalizing candidates tokens d with
  | zero => cases h
  | succ fuel ih =>
    cases p.step candidates tokens d with
    | refused hid => rw [walk_refused hid] at h; cases h
    | failed hid he => rw [walk_failed hid he] at h; cases h
    | @finished id hid he hk =>
      have hfits := fits_of_select hid (by rw [hk]; nofun)
      rw [fits_of_finish hk, Option.isNone_iff_eq_none, List.head?_eq_none_iff] at hfits
      subst hfits
      rw [trace_finished hid he hk]
      exact .ended (mem_of_select hid) hk
    | @moved id hid he hk =>
      rw [walk_moved hid he hk] at h
      rw [trace_moved hid he hk]
      have hrest := ih _ _ _ h
      by_cases hconsumes : (p.graph.node id).kind.consumes = true
      · obtain ⟨t, rest, rfl, haccepts⟩ := exists_token hid hconsumes
        simp only [hconsumes, if_true, List.tail_cons] at hrest ⊢
        exact .taken (mem_of_select hid) haccepts hrest
      · simp only [hconsumes] at hrest ⊢
        exact .passed (mem_of_select hid) (NodeKind.eq_idle hk hconsumes) hrest

/-- And there is no other run. -/
theorem Runs.eq_trace (fuel : Nat) (d : Draft) (h : p.Runs candidates tokens path)
    (hok : (p.walk fuel candidates tokens d).verdict = .ok ()) :
    path = p.trace fuel candidates tokens d := by
  induction fuel generalizing candidates tokens d path with
  | zero => cases hok
  | succ fuel ih =>
    obtain ⟨c, rest, rfl, -⟩ := h.exists_cons
    cases p.step candidates tokens d with
    | refused hid => rw [walk_refused hid] at hok; cases hok
    | failed hid he => rw [walk_failed hid he] at hok; cases hok
    | finished hid he hk =>
      obtain rfl := h.head_eq hid
      rw [trace_finished hid he hk, h.eq_singleton hk]
    | moved hid he hk =>
      obtain rfl := h.head_eq hid
      rw [walk_moved hid he hk] at hok
      rw [trace_moved hid he hk, ih _ (h.tail hk) hok]

theorem refused_of_trace_eq_nil {fuel : Nat} {d : Draft} {e : ParseError}
    (h : (p.walk fuel candidates tokens d).verdict = .error (.parse e))
    (htrace : p.trace fuel candidates tokens d = []) :
    ∃ e, p.select candidates tokens.head? = .error (.parse e) := by
  cases fuel with
  | zero => cases h
  | succ fuel =>
    cases p.step candidates tokens d with
    | refused hid =>
      rw [walk_refused hid] at h
      exact ⟨e, by rw [hid, Except.error.inj h]⟩
    | failed hid he => rw [trace_failed hid he] at htrace; cases htrace
    | finished hid he hk => rw [trace_finished hid he hk] at htrace; cases htrace
    | moved hid he hk => rw [trace_moved hid he hk] at htrace; cases htrace

section Bare

variable (hbare : ∀ node ∈ p.graph.nodes, node.hook = none)

include hbare

/-- Without hooks a step only counts. -/
theorem enter_of_bare (id : Nat) (tokens : List Token) (d : Draft) :
    p.enter id tokens d = ⟨d.tick, .ok ()⟩ := by
  have hhook : (p.graph.node id).hook = none := by
    unfold Graph.node
    cases hnode : p.graph.nodes[id]? with
    | none => rfl
    | some node => exact hbare node (List.mem_of_getElem? hnode)
  simp only [enter, hhook]

/-- A statement that has a run is accepted unless a choice is ambiguous or the fuel runs out. -/
theorem Runs.verdict_walk (fuel : Nat) (d : Draft) (h : p.Runs candidates tokens path) :
    (p.walk fuel candidates tokens d).verdict = .ok () ∨
      (∃ found nodes span,
        (p.walk fuel candidates tokens d).verdict = .error (.ambiguous found nodes span)) ∨
      ∃ limit, (p.walk fuel candidates tokens d).verdict = .error (.fuelExhausted limit) := by
  induction fuel generalizing candidates tokens d path with
  | zero => exact .inr (.inr ⟨p.fuel, rfl⟩)
  | succ fuel ih =>
    obtain ⟨c, rest, rfl, hc⟩ := h.exists_cons
    cases p.step candidates tokens d with
    | @refused e hid =>
      rw [walk_refused hid]
      rcases p.select_cases candidates tokens.head? with ⟨id, -, hok⟩ | ⟨e', hnone, -⟩ | ⟨f, n, s, he⟩
      · rw [hid] at hok
        cases hok
      · have haccepts := h.accepts
        rw [hnone c hc] at haccepts
        cases haccepts
      · rw [hid] at he
        rw [Except.error.inj he]
        exact .inr (.inl ⟨f, n, s, rfl⟩)
    | failed hid he => rw [enter_of_bare hbare] at he; cases he
    | finished hid he hk => exact .inl (by rw [walk_finished hid he hk])
    | moved hid he hk =>
      obtain rfl := h.head_eq hid
      rw [walk_moved hid he hk]
      exact ih _ (h.tail hk)

/-- Where a token is refused, the walk stands at its start or behind a node that took the token before. -/
theorem consumes_of_refused (fuel : Nat) (candidates : List Nat) (tokens : List Token) (d : Draft)
    (e : ParseError) (h : (p.walk fuel candidates tokens d).verdict = .error (.parse e)) :
    ∀ id ∈ (p.trace fuel candidates tokens d).getLast?, (p.graph.node id).kind.consumes = true := by
  induction fuel generalizing candidates tokens d with
  | zero => cases h
  | succ fuel ih =>
    cases p.step candidates tokens d with
    | refused hid => simp [trace_refused hid]
    | failed hid he => rw [enter_of_bare hbare] at he; cases he
    | finished hid he hk => rw [walk_finished hid he hk] at h; cases h
    | @moved id hid he hk =>
      rw [walk_moved hid he hk] at h
      rw [trace_moved hid he hk]
      have hrest := ih _ _ _ h
      cases htrace : p.trace fuel (p.graph.node id).successors
          (if (p.graph.node id).kind.consumes then tokens.tail else tokens)
          (p.enter id tokens d).draft with
      | cons s more =>
        rw [htrace] at hrest
        rwa [List.getLast?_cons_cons]
      | nil =>
        -- The token is refused right here, which cannot be behind an idle node that accepts it.
        intro x hx
        obtain rfl : id = x := by simpa using hx
        by_contra hconsumes
        simp only [hconsumes, if_false] at h htrace
        obtain ⟨s, hs, haccepts⟩ :=
          (accepts_of_idle (NodeKind.eq_idle hk hconsumes)).1 (accepts_of_select hid)
        obtain ⟨e', he'⟩ := refused_of_trace_eq_nil h htrace
        rw [accepts_of_refused he' hs] at haccepts
        cases haccepts

end Bare

/-- The walker recognises the language of its graph. It accepts a statement along the only run that the
statement has, and it refuses none that has a run. A token is refused at the start or behind a node that
took the token before it: an idle node has a successor that accepts what comes next. -/
theorem parseTokens_recognises (p : Parser Hook) (hbare : ∀ node ∈ p.graph.nodes, node.hook = none)
    (tokens : List Token) (hfuel : (tokens.length + 1) * (p.graph.idleCount + 1) ≤ p.fuel)
    (d : Draft) :
    ((p.parseTokens tokens d).verdict = .ok () →
      p.IsRun [p.graph.root] tokens (p.transitions tokens d) ∧
        ∀ path, p.IsRun [p.graph.root] tokens path → path = p.transitions tokens d) ∧
    ((∃ path, p.IsRun [p.graph.root] tokens path) →
      (p.parseTokens tokens d).verdict = .ok () ∨
        ∃ found nodes span, (p.parseTokens tokens d).verdict = .error (.ambiguous found nodes span)) ∧
    ((∃ e, (p.parseTokens tokens d).verdict = .error (.parse e)) →
      ∀ id ∈ (p.transitions tokens d).getLast?, (p.graph.node id).kind.consumes = true) ∧
    ∀ front id rest, p.transitions tokens d = front ++ id :: rest → (p.graph.node id).kind = .idle →
      ∃ s ∈ p.graph.successors id, p.accepts
        (tokens.drop (front.countP fun x => (p.graph.node x).kind.consumes)).head? s = true := by
  have hne := parseTokens_ne_fuelExhausted hfuel d
  simp only [verdict_parseTokens] at hne ⊢
  refine ⟨fun hok => ⟨(runs_trace _ _ _ _ hok).isRun, fun path h => h.runs.eq_trace _ _ hok⟩,
    ?_, ?_, fun front id rest h hk => ?_⟩
  · rintro ⟨path, h⟩
    rcases h.runs.verdict_walk hbare p.fuel d with hok | hambiguous | ⟨limit, hlimit⟩
    · exact .inl hok
    · exact .inr hambiguous
    · exact absurd hlimit (hne limit)
  · rintro ⟨e, he⟩
    exact consumes_of_refused hbare _ _ _ _ e he
  · obtain ⟨fuel, candidates, d', hrest⟩ := p.trace_append h
    have hid := select_of_trace p hrest.symm
    exact (accepts_of_idle hk).1 (accepts_of_select hid)

theorem isRun_commas : commas.IsRun [commas.graph.root] [comma] [0, 1, 0, 3] :=
  Runs.isRun (.passed (by decide) rfl (.taken (by decide) rfl
    (.passed (by decide) rfl (.ended (by decide) rfl))))

theorem parseTokens_recognises_commas :
    (commas.parseTokens [comma] {}).verdict = .ok () ∧
      ∀ path, commas.IsRun [commas.graph.root] [comma] path → path = [0, 1, 0, 3] := by
  have hbare : ∀ node ∈ commas.graph.nodes, node.hook = none := by decide
  have hok : (commas.parseTokens [comma] {}).verdict = .ok () := by decide
  obtain ⟨-, hunique⟩ := (parseTokens_recognises commas hbare [comma] (by decide) {}).1 hok
  refine ⟨hok, fun path h => ?_⟩
  rw [hunique path h, hunique [0, 1, 0, 3] isRun_commas]

end Parser
end DdlSchema
