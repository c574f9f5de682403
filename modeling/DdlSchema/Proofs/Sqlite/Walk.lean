import DdlSchema.Proofs.Sqlite.Stage

/-! Walks through the graph of the states. They are never ambiguous, no action is refused by the draft,
and two steps for each token and for the end are fuel enough. -/
namespace DdlSchema
namespace Sqlite

/-- A parser that walks through the states. Nothing is said of its fuel. -/
structure Follows (p : Parser Action) : Prop where
  graph_eq : p.graph = graph
  reserved_eq : p.reserved = graph.reserved
  act_eq : p.act = act

theorem parser_follows : Follows parser := ⟨parser_graph, parser_reserved, parser_act⟩

/-- What stands next, as a symbol. -/
def look (ts : List Token) : Option Symbol := ts.head?.map Symbol.ofToken

namespace Follows

variable {p : Parser Action} (hp : Follows p)

include hp

theorem node (s : State) : p.graph.node s.id = s.node := by rw [hp.graph_eq, node_graph]

theorem root : p.graph.root = State.root.id := by
  rw [hp.graph_eq]
  rfl

theorem fits (next : Option Token) (s : State) :
    p.fits next s.id = s.matcher.fits (next.map Symbol.ofToken) := by
  unfold Parser.fits
  rw [hp.node, hp.reserved_eq, show s.node.kind = s.matcher.kind from rfl]
  cases next with
  | none => cases s.matcher <;> rfl
  | some t =>
    have htakes := s.matcher.accepts_kind t.kind
    cases hm : s.matcher <;> rw [hm] at htakes <;> exact htakes

theorem accepts (next : Option Token) (s : State) :
    p.accepts next s.id = s.admits (next.map Symbol.ofToken) := by
  unfold Parser.accepts State.admits
  rw [hp.graph_eq, State.frontier_graph, List.any_map]
  congr 1
  funext c
  exact hp.fits next c

theorem filter_accepts (next : Option Token) (cs : List State) :
    (cs.map State.id).filter (p.accepts next) =
      (cs.filter (State.admits (next.map Symbol.ofToken))).map State.id := by
  rw [List.filter_map]
  congr 2
  funext c
  exact hp.accepts next c

theorem select_eq_ok {cs : List State} {next : Option Token} {c : State}
    (h : cs.filter (State.admits (next.map Symbol.ofToken)) = [c]) :
    p.select (cs.map State.id) next = .ok c.id := by
  simp only [Parser.select, hp.filter_accepts, h, List.map_cons, List.map_nil]

theorem select_eq_error {cs : List State} {next : Option Token}
    (h : cs.filter (State.admits (next.map Symbol.ofToken)) = []) :
    ∃ e, p.select (cs.map State.id) next = .error (.parse e) := by
  simp only [Parser.select, hp.filter_accepts, h, List.map_nil]
  cases next with
  | none => exact ⟨_, rfl⟩
  | some t => exact ⟨_, rfl⟩

theorem select_of_choose {s c : State} {ts : List Token} (h : s.choose (look ts) = some c) :
    p.select (s.next.map State.id) ts.head? = .ok c.id :=
  hp.select_eq_ok (State.filter_admits_of_choose h)

theorem select_of_choose_none {s : State} {ts : List Token} (h : s.choose (look ts) = none) :
    ∃ e, p.select (s.next.map State.id) ts.head? = .error (.parse e) := by
  apply hp.select_eq_error
  rw [State.choose_eq_head?, List.head?_eq_none_iff] at h
  exact h

theorem enter_of_none {c : State} (hc : c.action = none) (ts : List Token) (d : Draft) :
    p.enter c.id ts d = ⟨d.tick, .ok ()⟩ := by
  unfold Parser.enter
  rw [hp.node, show c.node.hook = c.action from rfl, hc]

theorem enter_of_some {c : State} {a : Action} (hc : c.action = some a) (ts : List Token)
    (d : Draft) : p.enter c.id ts d = a.perform ts.head? d.tick := by
  unfold Parser.enter
  rw [hp.node, show c.node.hook = c.action from rfl, hc, hp.act_eq]
  rfl

end Follows

/-- Where what comes next admits a state, its action finds the token that it asks for. -/
theorem serves_of_admits {c : State} {a : Action} (ha : c.action = some a) {next : Option Token}
    (h : c.admits (next.map Symbol.ofToken) = true) : a.Serves next := by
  have hall : ∀ c ∈ State.all, ∀ x ∈ Symbol.shapes, c.admits x = true →
      ∀ a ∈ c.action, a = .tableEnd ∨ x.isSome = true ∧
        (a = .indexColumnAscOrDesc → x = some (.keyword .asc) ∨ x = some (.keyword .desc)) := by
    decide +kernel
  rw [← State.admits_map_shape] at h
  rcases hall c c.mem_all _ (Symbol.map_shape_mem _) h a ha with rfl | ⟨hsome, hdirection⟩
  · trivial
  obtain ⟨t, rfl⟩ : ∃ t, next = some t := by simpa using Option.isSome_iff_exists.1 hsome
  by_cases haction : a = .indexColumnAscOrDesc
  · subst haction
    refine ⟨t, rfl, ?_⟩
    have hkeyword (k : Keyword) (hk : (Symbol.ofToken t).shape = .keyword k) :
        Text.lower t.text = Text.lower k.text := by
      have hx : Symbol.ofToken t = .keyword k := by
        cases hx : Symbol.ofToken t <;> rw [hx] at hk <;> cases hk
        rfl
      have hmatch := Symbol.matches_ofToken (t := t) (by rw [hx]; nofun)
      rw [hx] at hmatch
      obtain ⟨w, hw, hlower⟩ := hmatch
      rw [Token.text, hw]
      exact hlower
    rcases hdirection rfl with hk | hk
    · simp only [Direction.ofKeyword?, Text.sameWord, hkeyword .asc (by simpa using hk)]
      rfl
    · simp only [Direction.ofKeyword?, Text.sameWord, hkeyword .desc (by simpa using hk)]
      rfl
  · cases a <;> first | rfl | trivial

namespace Follows

variable {p : Parser Action} (hp : Follows p) {s c : State} {f : Draft → Draft}

include hp

/-- Entering a state brings the statement there, or rejects it. -/
theorem enter_settles (hf : StandsAt s f) (hc : c ∈ s.next) {ts : List Token}
    (h : c.admits (look ts) = true) :
    (∃ f', StandsAt c f' ∧ ∀ d, p.enter c.id ts (f d) = ⟨f' d.tick, .ok ()⟩) ∨
      ∃ e clause, ∀ d, p.enter c.id ts (f d) = ⟨d.tick.add clause, .error (.rejected e)⟩ := by
  have hfits := State.stageFits_of_mem hc
  cases ha : c.action with
  | none => exact .inl ⟨f, hf.of_plain hfits ha, fun d => by rw [hp.enter_of_none ha, hf.tick]⟩
  | some a =>
    have hact (d : Draft) : p.enter c.id ts (f d) = a.perform ts.head? (f d.tick) := by
      rw [hp.enter_of_some ha, hf.tick]
    obtain ⟨g, hg, clause, v, hv, ⟨rfl, hholds⟩ | ⟨e, rfl⟩⟩ :=
      hf.settles hfits ha (serves_of_admits ha h)
    · exact .inl ⟨_, .of_holds hg hholds, fun d => (hact d).trans (hv d.tick)⟩
    · exact .inr ⟨e, clause, fun d => (hact d).trans (hv d.tick)⟩

end Follows

/-- What the next token makes of a walk that stands at a state. -/
inductive Steps (p : Parser Action) (s : State) (ts : List Token) : Prop where
  /-- Nothing fits. -/
  | refused {e : ParseError} (hchoose : s.choose (look ts) = none)
    (hselect : p.select (s.next.map State.id) ts.head? = .error (.parse e))
  /-- The statement ends. -/
  | finished {c : State} (hchoose : s.choose (look ts) = some c)
    (hselect : p.select (s.next.map State.id) ts.head? = .ok c.id) (hts : ts = [])
    (hc : c.matcher = .finish)
    (hwalk : ∀ fuel d, (p.enter c.id ts d).verdict = .ok () →
      p.walk (fuel + 1) (s.next.map State.id) ts d = ⟨(p.enter c.id ts d).draft, .ok ()⟩)
  /-- An idle state is passed. -/
  | passed {c : State} (hchoose : s.choose (look ts) = some c)
    (hselect : p.select (s.next.map State.id) ts.head? = .ok c.id) (hs : s.matcher ≠ .idle)
    (hc : c.matcher = .idle)
    (hwalk : ∀ fuel d, (p.enter c.id ts d).verdict = .ok () →
      p.walk (fuel + 1) (s.next.map State.id) ts d =
        p.walk fuel (c.next.map State.id) ts (p.enter c.id ts d).draft)
  /-- A token is taken. -/
  | taken {c : State} {t : Token} {rest : List Token} (hts : ts = t :: rest)
    (hchoose : s.choose (look ts) = some c)
    (hselect : p.select (s.next.map State.id) ts.head? = .ok c.id) (hc : c.matcher ≠ .idle)
    (hwalk : ∀ fuel d, (p.enter c.id ts d).verdict = .ok () →
      p.walk (fuel + 1) (s.next.map State.id) ts d =
        p.walk fuel (c.next.map State.id) rest (p.enter c.id ts d).draft)

theorem Matcher.kind_eq_finish {m : Matcher} : m.kind = .finish ↔ m = .finish := by
  cases m <;> simp [kind]

theorem State.eq_finish {c : State} (h : c.matcher = .finish) : c = .finish := by
  cases c <;> first | rfl | cases h

theorem Matcher.consumes_kind (m : Matcher) :
    m.kind.consumes = (m != .idle && m != .finish) := by cases m <;> rfl

theorem Follows.steps {p : Parser Action} (hp : Follows p) (s : State) (ts : List Token) :
    Steps p s ts := by
  cases hchoose : s.choose (look ts) with
  | none =>
    obtain ⟨e, he⟩ := hp.select_of_choose_none hchoose
    exact .refused hchoose he
  | some c =>
    have hselect := hp.select_of_choose hchoose
    have hkind : (p.graph.node c.id).kind = c.matcher.kind := congrArg Node.kind (hp.node c)
    by_cases hfinish : c.matcher = .finish
    · have hts : ts = [] := by
        have hfits := State.fits_of_choose hchoose (by rw [hfinish]; nofun)
        cases ts with
        | nil => rfl
        | cons t rest => rw [hfinish] at hfits; cases hfits
      have hend : (p.graph.node c.id).kind = .finish := by rw [hkind, hfinish]; rfl
      exact .finished hchoose hselect hts hfinish
        fun fuel d henter => Parser.walk_finished hselect henter hend
    · have hgoes (fuel : Nat) (d : Draft) (henter : (p.enter c.id ts d).verdict = .ok ()) :
          p.walk (fuel + 1) (s.next.map State.id) ts d = p.walk fuel (c.next.map State.id)
            (if c.matcher ≠ .idle then ts.tail else ts) (p.enter c.id ts d).draft := by
        have hend : (p.graph.node c.id).kind ≠ .finish := by
          rwa [hkind, Ne, Matcher.kind_eq_finish]
        rw [Parser.walk_moved hselect henter hend, hkind, Matcher.consumes_kind,
          congrArg Node.successors (hp.node c)]
        simp [hfinish, State.node]
      by_cases hidle : c.matcher = .idle
      · refine .passed hchoose hselect (fun hs => ?_) hidle fun fuel d henter => ?_
        · exact State.matcher_ne_idle hs (State.mem_next_of_choose hchoose) hidle
        · rw [hgoes fuel d henter, if_neg (not_not_intro hidle)]
      · cases ts with
        | nil =>
          have hfits := State.fits_of_choose hchoose hidle
          exact absurd (by simpa [Matcher.fits, look] using hfits) hfinish
        | cons t rest =>
          refine .taken rfl hchoose hselect hidle fun fuel d henter => ?_
          rw [hgoes fuel d henter, if_pos hidle, List.tail_cons]

/-- The steps that are left from a state when some tokens are. -/
def State.budget (s : State) (ts : List Token) : Nat :=
  2 * ts.length + if s.matcher = .idle then 1 else 2

theorem State.budget_passed {s c : State} (hs : s.matcher ≠ .idle) (hc : c.matcher = .idle)
    (ts : List Token) : c.budget ts + 1 = s.budget ts := by
  rw [budget, budget, if_neg hs, if_pos hc]

theorem State.budget_taken (s c : State) (t : Token) (rest : List Token) :
    c.budget rest + 1 ≤ s.budget (t :: rest) := by
  unfold budget
  rw [List.length_cons]
  split <;> split <;> omega

/-- The ways a statement can end, the same for every draft before it: with one more clause, or with an
error and no clause lost. The fuel runs out only where it is not enough. -/
def Concludes (enough : Prop) (f : Draft → Outcome Error) : Prop :=
  (∃ c, ∀ d, (f d).verdict = .ok () ∧ (f d).draft.clauses = d.clauses ++ [c]) ∨
    ∃ e, (∀ d, (f d).verdict = .error e ∧ d.clauses <+: (f d).draft.clauses) ∧
      ((∃ pe, e = .parse pe) ∨ (∃ n, e = .fuelExhausted n) ∧ ¬enough)

theorem Concludes.tick {enough enough' : Prop} (h : enough' → enough) {f : Draft → Outcome Error}
    (hf : Concludes enough f) : Concludes enough' fun d => f d.tick := by
  rcases hf with ⟨c, hc⟩ | ⟨e, he, hkind⟩
  · exact .inl ⟨c, fun d => hc d.tick⟩
  · exact .inr ⟨e, fun d => he d.tick, hkind.imp_right fun h' => ⟨h'.1, fun hn => h'.2 (h hn)⟩⟩

section Steps

variable {p : Parser Action} {fuel : Nat} {s c : State} {ts : List Token} {f : Draft → Draft}

/-- A statement that its next state rejects has lost no clause. -/
theorem concludes_of_rejected (enough : Prop) {e : ParseError} {clause : Clause}
    (hselect : p.select (s.next.map State.id) ts.head? = .ok c.id)
    (he : ∀ d, p.enter c.id ts (f d) = ⟨d.tick.add clause, .error (.rejected e)⟩) :
    Concludes enough fun d => p.walk (fuel + 1) (s.next.map State.id) ts (f d) := by
  refine .inr ⟨.parse e, fun d => ?_, .inl ⟨e, rfl⟩⟩
  dsimp only
  rw [Parser.walk_failed hselect (congrArg Outcome.verdict (he d)), he]
  exact ⟨rfl, List.prefix_append _ _⟩

/-- A walk ends as it does from its next state on. -/
theorem Concludes.of_moved {enough enough' : Prop} {rest : List Token} {f' : Draft → Draft}
    (h : Concludes enough fun d => p.walk fuel (c.next.map State.id) rest (f' d))
    (hfuel : enough' → enough) (hok : ∀ d, p.enter c.id ts (f d) = ⟨f' d.tick, .ok ()⟩)
    (hwalk : ∀ fuel d, (p.enter c.id ts d).verdict = .ok () →
      p.walk (fuel + 1) (s.next.map State.id) ts d =
        p.walk fuel (c.next.map State.id) rest (p.enter c.id ts d).draft) :
    Concludes enough' fun d => p.walk (fuel + 1) (s.next.map State.id) ts (f d) := by
  have hgoes (d : Draft) : p.walk (fuel + 1) (s.next.map State.id) ts (f d) =
      p.walk fuel (c.next.map State.id) rest (f' d.tick) := by
    rw [hwalk fuel (f d) (congrArg Outcome.verdict (hok d)), hok]
  simp only [hgoes]
  exact h.tick hfuel

end Steps

theorem Follows.walk_concludes {p : Parser Action} (hp : Follows p) (fuel : Nat) {s : State}
    {f : Draft → Draft} (hf : StandsAt s f) (ts : List Token) :
    Concludes (s.budget ts ≤ fuel) fun d => p.walk fuel (s.next.map State.id) ts (f d) := by
  induction fuel generalizing s ts f with
  | zero =>
    refine .inr ⟨_, fun d => ⟨rfl, hf.isPrefix d⟩, .inr ⟨⟨_, rfl⟩, ?_⟩⟩
    unfold State.budget
    split <;> omega
  | succ fuel ih =>
    have henter {c : State} (hchoose : s.choose (look ts) = some c) :=
      hp.enter_settles hf (State.mem_next_of_choose hchoose) (State.admits_of_choose hchoose)
    cases hp.steps s ts with
    | @refused e hchoose hselect =>
      refine .inr ⟨.parse e, fun d => ?_, .inl ⟨e, rfl⟩⟩
      dsimp only
      rw [Parser.walk_refused hselect]
      exact ⟨rfl, hf.isPrefix d⟩
    | finished hchoose hselect hts hc hwalk =>
      rcases henter hchoose with ⟨f', hf', hok⟩ | ⟨e, clause, he⟩
      · obtain rfl := State.eq_finish hc
        obtain ⟨clause, -, rfl⟩ := hf'
        refine .inl ⟨clause, fun d => ?_⟩
        dsimp only
        rw [hwalk fuel (f d) (congrArg Outcome.verdict (hok d)), hok]
        exact ⟨rfl, rfl⟩
      · exact concludes_of_rejected _ hselect he
    | passed hchoose hselect hs hc hwalk =>
      rcases henter hchoose with ⟨f', hf', hok⟩ | ⟨e, clause, he⟩
      · have hbudget := State.budget_passed hs hc ts
        exact (ih hf' ts).of_moved (fun hfuel => by omega) hok hwalk
      · exact concludes_of_rejected _ hselect he
    | @taken c t rest hts hchoose hselect hc hwalk =>
      rcases henter hchoose with ⟨f', hf', hok⟩ | ⟨e, clause, he⟩
      · have hbudget := s.budget_taken c t rest
        rw [← hts] at hbudget
        exact (ih hf' rest).of_moved (fun hfuel => by omega) hok hwalk
      · exact concludes_of_rejected _ hselect he

namespace Follows

variable {p : Parser Action} (hp : Follows p)

include hp

/-- The first step passes the root, or nothing fits. -/
theorem walk_root (fuel : Nat) (ts : List Token) :
    (∃ e, State.root.choose (look ts) = none ∧
      ∀ d, p.walk (fuel + 1) [p.graph.root] ts d = ⟨d, .error (.parse e)⟩) ∨
    ∀ d, p.walk (fuel + 1) [p.graph.root] ts d =
      p.walk fuel (State.root.next.map State.id) ts d.tick := by
  have hroot : [p.graph.root] = [State.root].map State.id := congrArg (fun id => [id]) hp.root
  rw [hroot]
  have hfilter : [State.root].filter (State.admits (look ts)) =
      if State.root.admits (look ts) then [.root] else [] := by
    cases hadmits : State.root.admits (look ts) <;> simp [hadmits]
  cases hadmits : State.root.admits (look ts) with
  | false =>
    rw [hadmits] at hfilter
    obtain ⟨e, he⟩ := hp.select_eq_error hfilter
    refine .inl ⟨e, ?_, fun d => Parser.walk_refused he⟩
    have hcreate : State.create.admits (look ts) = false := hadmits
    simp [State.choose, State.next, State.row, hcreate]
  | true =>
    rw [hadmits] at hfilter
    have hselect := hp.select_eq_ok hfilter
    refine .inr fun d => ?_
    have henter := hp.enter_of_none (show State.root.action = none from rfl) ts d
    have hverdict : (p.enter State.root.id ts d).verdict = .ok () := by rw [henter]
    have hkind : (p.graph.node State.root.id).kind ≠ .finish := by
      rw [hp.node]
      intro h
      cases h
    rw [Parser.walk_moved hselect hverdict hkind, henter, hp.node]
    rfl

theorem walk_root_concludes (fuel : Nat) (ts : List Token) :
    Concludes (2 * (ts.length + 1) ≤ fuel) fun d => p.walk fuel [p.graph.root] ts d := by
  cases fuel with
  | zero => exact .inr ⟨_, fun d => ⟨rfl, List.prefix_rfl⟩, .inr ⟨⟨_, rfl⟩, by omega⟩⟩
  | succ fuel =>
    rcases hp.walk_root fuel ts with ⟨e, -, he⟩ | hw
    · simp only [he]
      exact .inr ⟨_, fun d => ⟨rfl, List.prefix_rfl⟩, .inl ⟨e, rfl⟩⟩
    · simp only [hw]
      have hstart : StandsAt .root id := rfl
      refine (hp.walk_concludes fuel hstart ts).tick fun hfuel => ?_
      change 2 * ts.length + 1 ≤ fuel
      omega

end Follows

end Sqlite
end DdlSchema
