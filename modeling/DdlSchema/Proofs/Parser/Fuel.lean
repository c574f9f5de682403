import DdlSchema.Proofs.Parser.Select
import DdlSchema.Proofs.Parser.Walk
import Mathlib.Data.List.Chain

/-! How long a walk is. Between two tokens it enters no idle node twice, so the fuel that a statement
needs hangs on the number of its tokens and of the idle nodes, and on no cycle. -/
namespace DdlSchema
namespace Parser

variable {Hook : Type} {p : Parser Hook}

section Budget

variable (p) in
/-- The steps that are enough from the selection of a node on. -/
noncomputable def budget (tokens : List Token) (id : Nat) : Nat :=
  tokens.length * (p.graph.idleCount + 1) + p.depth tokens.head? id + 1

variable {candidates : List Nat} {tokens : List Token} {id : Nat}

theorem budget_le (h : p.accepts tokens.head? id = true) :
    p.budget tokens id ≤ (tokens.length + 1) * (p.graph.idleCount + 1) := by
  have hdepth := depth_le_idleCount h
  rw [budget, Nat.add_one_mul]
  omega

/-- A node that takes a token finds one. -/
theorem exists_token (h : p.select candidates tokens.head? = .ok id)
    (hk : (p.graph.node id).kind.consumes = true) : ∃ t rest, tokens = t :: rest ∧
      (p.graph.node id).kind.accepts t.kind p.reserved = true := by
  have hidle : (p.graph.node id).kind ≠ .idle := by
    intro hidle
    rw [hidle] at hk
    cases hk
  obtain ⟨t, ht, haccepts⟩ := (fits_of_consumes hk).1 (fits_of_select h hidle)
  cases tokens with
  | nil => cases ht
  | cons u rest =>
    cases ht
    exact ⟨t, rest, rfl, haccepts⟩

theorem one_lt_budget (h : p.select candidates tokens.head? = .ok id)
    (hfinish : (p.graph.node id).kind ≠ .finish) : 1 < p.budget tokens id := by
  rw [budget]
  by_cases hk : (p.graph.node id).kind.consumes = true
  · obtain ⟨t, rest, rfl, -⟩ := exists_token h hk
    rw [List.length_cons, Nat.add_one_mul]
    omega
  · obtain ⟨s, -, -, hdepth⟩ :=
      exists_depth_add_one (NodeKind.eq_idle hfinish hk) (accepts_of_select h)
    omega

/-- Every step uses up some of the budget. -/
theorem budget_lt {s : Nat} (h : p.select candidates tokens.head? = .ok id)
    (hfinish : (p.graph.node id).kind ≠ .finish)
    (hs : p.select (p.graph.node id).successors
      (if (p.graph.node id).kind.consumes then tokens.tail else tokens).head? = .ok s) :
    p.budget (if (p.graph.node id).kind.consumes then tokens.tail else tokens) s <
      p.budget tokens id := by
  by_cases hk : (p.graph.node id).kind.consumes = true
  · obtain ⟨t, rest, rfl, -⟩ := exists_token h hk
    simp only [hk, if_true, List.tail_cons] at hs ⊢
    refine Nat.lt_of_le_of_lt (budget_le (accepts_of_select hs)) ?_
    rw [budget, List.length_cons]
    omega
  · simp only [hk] at hs ⊢
    have hdepth := depth_of_select (NodeKind.eq_idle hfinish hk) (accepts_of_select h) hs
    simp only [budget, hdepth, Bool.false_eq_true, if_false]
    omega

end Budget

/-- A walk that has fuel for its budget does not use it up. -/
theorem walk_ne_fuelExhausted (limit fuel : Nat) (candidates : List Nat) (tokens : List Token)
    (d : Draft) (hpos : 0 < fuel)
    (hfuel : ∀ id, p.select candidates tokens.head? = .ok id → p.budget tokens id ≤ fuel) :
    (p.walk fuel candidates tokens d).verdict ≠ .error (.fuelExhausted limit) := by
  induction fuel generalizing candidates tokens d with
  | zero => omega
  | succ fuel ih =>
    cases p.step candidates tokens d with
    | refused hid =>
      rw [walk_refused hid]
      intro h
      rw [Except.error.inj h] at hid
      exact select_ne_fuelExhausted limit hid
    | @failed id e hid he =>
      rw [walk_failed hid he]
      cases e <;> nofun
    | finished hid he hk => rw [walk_finished hid he hk]; nofun
    | moved hid he hk =>
      rw [walk_moved hid he hk]
      have hpays := hfuel _ hid
      have hlong := one_lt_budget hid hk
      refine ih _ _ _ (by omega) fun s hs => ?_
      have hless := budget_lt hid hk hs
      omega

theorem trace_length_le_budget (bound fuel : Nat) (candidates : List Nat) (tokens : List Token)
    (d : Draft)
    (hbound : ∀ id, p.select candidates tokens.head? = .ok id → p.budget tokens id ≤ bound) :
    (p.trace fuel candidates tokens d).length ≤ bound := by
  induction fuel generalizing candidates tokens d bound with
  | zero => exact Nat.zero_le _
  | succ fuel ih =>
    cases p.step candidates tokens d with
    | refused hid => rw [trace_refused hid]; exact Nat.zero_le _
    | failed hid he =>
      rw [trace_failed hid he]
      exact Nat.le_trans (Nat.le_add_left _ _) (hbound _ hid)
    | finished hid he hk =>
      rw [trace_finished hid he hk]
      exact Nat.le_trans (Nat.le_add_left _ _) (hbound _ hid)
    | @moved id hid he hk =>
      rw [trace_moved hid he hk, List.length_cons]
      have hrest := ih (p.budget tokens id - 1) (p.graph.node id).successors _
        (p.enter id tokens d).draft fun s hs => Nat.le_sub_one_of_lt (budget_lt hid hk hs)
      have hpays := hbound id hid
      have hlong := one_lt_budget hid hk
      omega

/-- Before it takes the next token, a walk comes nearer to it with every node. -/
theorem isChain_depth {fuel : Nat} {candidates : List Nat} {tokens : List Token} {d : Draft}
    {front rest : List Nat} (h : p.trace fuel candidates tokens d = front ++ rest)
    (hfront : ∀ id ∈ front, (p.graph.node id).kind.consumes = false) :
    front.IsChain fun a b => p.depth tokens.head? b < p.depth tokens.head? a := by
  induction front generalizing fuel candidates d with
  | nil => exact .nil
  | cons id front ih =>
    cases front with
    | nil => exact .singleton id
    | cons s front =>
      have hid := select_of_trace _ h
      obtain ⟨hfinish, fuel', d', htail⟩ := p.trace_tail h (List.cons_ne_nil s _)
      have hk := hfront id List.mem_cons_self
      simp only [hk, Bool.false_eq_true, if_false] at htail
      have hs := select_of_trace _ htail.symm
      have hidle := NodeKind.eq_idle hfinish (by simp [hk])
      have hdepth := depth_of_select hidle (accepts_of_select hid) hs
      refine .cons_cons (by omega) (ih htail.symm fun x hx => hfront x (List.mem_cons_of_mem id hx))

theorem nodup_of_trace {fuel : Nat} {candidates : List Nat} {tokens : List Token} {d : Draft}
    {front rest : List Nat} (h : p.trace fuel candidates tokens d = front ++ rest)
    (hfront : ∀ id ∈ front, (p.graph.node id).kind.consumes = false) : front.Nodup := by
  have htrans : IsTrans Nat fun a b => p.depth tokens.head? b < p.depth tokens.head? a :=
    ⟨fun a b c hab hbc => Nat.lt_trans hbc hab⟩
  refine (List.isChain_iff_pairwise.1 (isChain_depth h hfront)).imp ?_
  rintro a b hlt rfl
  exact Nat.lt_irrefl _ hlt

section Statement

variable {tokens : List Token}

theorem budget_root_le {id : Nat} (h : p.select [p.graph.root] tokens.head? = .ok id) :
    p.budget tokens id ≤ (tokens.length + 1) * (p.graph.idleCount + 1) :=
  budget_le (accepts_of_select h)

theorem parseTokens_ne_fuelExhausted
    (hfuel : (tokens.length + 1) * (p.graph.idleCount + 1) ≤ p.fuel) (d : Draft) (limit : Nat) :
    (p.parseTokens tokens d).verdict ≠ .error (.fuelExhausted limit) := by
  rw [verdict_parseTokens]
  have hpos := Nat.mul_pos tokens.length.succ_pos p.graph.idleCount.succ_pos
  exact walk_ne_fuelExhausted limit p.fuel _ _ _ (Nat.lt_of_lt_of_le hpos hfuel) fun id hid =>
    Nat.le_trans (budget_root_le hid) hfuel

/-- A statement that has not run out of fuel is parsed the same way under every greater limit. -/
theorem parseTokens_limit {d : Draft}
    (h : (p.parseTokens tokens d).verdict ≠ .error (.fuelExhausted p.fuel)) {limit : Nat}
    (hlimit : p.fuel ≤ limit) :
    ({ p with fuel := limit } : Parser Hook).parseTokens tokens d = p.parseTokens tokens d := by
  rw [verdict_parseTokens] at h
  obtain ⟨more, rfl⟩ := Nat.exists_eq_add_of_le hlimit
  have hwalk := p.walk_limit (p.fuel + more) p.fuel more [p.graph.root] tokens d h
  unfold parseTokens
  rw [hwalk]

end Statement

/-- Fuel is a matter of size and not of cycles: between two tokens a walk enters no node twice, so the
steps of a statement are bounded by its tokens and the idle nodes. So much fuel is never used up, and
more fuel than is used changes nothing. -/
theorem fuel_bounded_by_size (p : Parser Hook) (tokens : List Token) (d : Draft) :
    (∀ front between rest, p.transitions tokens d = front ++ between ++ rest →
      (∀ id ∈ between, (p.graph.node id).kind.consumes = false) → between.Nodup) ∧
    (p.transitions tokens d).length ≤ (tokens.length + 1) * (p.graph.idleCount + 1) ∧
    ((tokens.length + 1) * (p.graph.idleCount + 1) ≤ p.fuel →
      ∀ limit, (p.parseTokens tokens d).verdict ≠ .error (.fuelExhausted limit)) ∧
    ((p.parseTokens tokens d).verdict ≠ .error (.fuelExhausted p.fuel) →
      ∀ limit, p.fuel ≤ limit →
        ({ p with fuel := limit } : Parser Hook).parseTokens tokens d = p.parseTokens tokens d) := by
  refine ⟨fun front between rest h hbetween => ?_,
    trace_length_le_budget _ _ _ _ _ fun id => budget_root_le,
    fun hfuel => parseTokens_ne_fuelExhausted hfuel d, fun h limit => parseTokens_limit h⟩
  rw [List.append_assoc] at h
  obtain ⟨fuel, candidates, d', hrest⟩ := p.trace_append h
  exact nodup_of_trace hrest.symm hbetween

/-- Any number of commas. One idle node leads to the commas and to the end, the other one only to
itself. -/
def commaGraph {Hook : Type} (hook : Option Hook) : Graph Hook :=
  ⟨[⟨.idle, none, hook, [1, 2, 3]⟩, ⟨.exactPunctuation ',', none, none, [0]⟩,
    ⟨.idle, none, none, [2]⟩, ⟨.finish, none, none, []⟩], 0⟩

def commas : Parser Empty where
  lexer := {}
  graph := commaGraph none
  reserved := ⟨[]⟩
  act := nofun
  fuel := 6

/-- Commas with a table for each time that the idle node is passed. Its columns are the tokens that are
left. -/
def tallies : Parser Unit where
  lexer := {}
  graph := commaGraph (some ())
  reserved := ⟨[]⟩
  act _ context d :=
    ⟨d.add (.table { columns := context.remaining.map fun t => { name := t.text } }), .ok ()⟩
  fuel := 6

def comma : Token := ⟨.punctuation ',', default⟩

theorem fuel_bounded_by_size_tallies :
    ([comma].length + 1) * (tallies.graph.idleCount + 1) ≤ tallies.fuel ∧
      (∀ limit, (tallies.parseTokens [comma] {}).verdict ≠ .error (.fuelExhausted limit)) ∧
      ({ tallies with fuel := 100 } : Parser Unit).parseTokens [comma] {} =
        tallies.parseTokens [comma] {} ∧
      (tallies.parseTokens [comma] {}).draft.clauses =
        [.table { columns := [{ name := "," }] }, .table {}] := by
  have hsize : ([comma].length + 1) * (tallies.graph.idleCount + 1) ≤ tallies.fuel := by decide
  have hbounds := fuel_bounded_by_size tallies [comma] {}
  have hfuel := hbounds.2.2.1 hsize
  have hclauses : (tallies.parseTokens [comma] {}).draft.clauses =
      [.table { columns := [{ name := "," }] }, .table {}] := by decide
  exact ⟨hsize, hfuel, hbounds.2.2.2 (hfuel tallies.fuel) 100 (by decide), hclauses⟩

end Parser
end DdlSchema
