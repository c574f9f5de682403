import DdlSchema.Proofs.Sqlite.Build
import DdlSchema.Proofs.Sqlite.Derive

/-! What the parser of the dialect makes of every token list: which ones it accepts, what an accepted one
means, and that a statement is taken as a whole or not at all. -/
namespace DdlSchema
namespace Sqlite

section Spelling

theorem forall₂_matches_iff {xs : List Symbol} {ts : List Token} :
    List.Forall₂ Symbol.Matches xs ts ↔ ts.map Symbol.ofToken = xs ∧ .other ∉ xs := by
  induction xs generalizing ts with
  | nil => cases ts <;> simp
  | cons x xs ih =>
    cases ts with
    | nil => simp
    | cons t ts =>
      rw [List.forall₂_cons, Symbol.matches_iff, ih, List.map_cons, List.cons_eq_cons,
        List.mem_cons, not_or, ne_comm, and_and_and_comm]

theorem other_notMem_of_reads {s : State} {xs : List Symbol} (h : Reads s xs) : .other ∉ xs := by
  induction h with
  | ended h => exact List.not_mem_nil
  | @moved s e x xs hmove hr ih =>
    refine fun hmem => (List.mem_cons.1 hmem).elim (fun hx => ?_) ih
    obtain ⟨c, -, he⟩ := Option.bind_eq_some_iff.1 (show _ = some e from hmove)
    have htakes := List.find?_some he
    rw [← hx] at htakes
    cases hm : e.matcher <;> simp [hm, Matcher.takes] at htakes

end Spelling

namespace Follows

variable {p : Parser Action} (hp : Follows p)

include hp

/-- What a statement leads to, the same for every draft before it. A fuel that is enough is not used up. -/
theorem parseTokens_concludes (ts : List Token) :
    (∃ c, ∀ d, (p.parseTokens ts d).verdict = .ok () ∧
      (p.parseTokens ts d).draft.clauses = d.clauses ++ [c]) ∨
    ∃ e, (∀ d, (p.parseTokens ts d).verdict = .error e ∧
      (p.parseTokens ts d).draft.clauses = d.clauses) ∧
      ((∃ pe, e = .parse pe) ∨ (∃ n, e = .fuelExhausted n) ∧ ¬2 * (ts.length + 1) ≤ p.fuel) := by
  rcases hp.walk_root_concludes p.fuel ts with ⟨c, hc⟩ | ⟨e, he, hkind⟩
  · refine .inl ⟨c, fun d => ?_⟩
    rw [Parser.parseTokens_of_ok p (hc d).1]
    exact hc d
  · refine .inr ⟨e, fun d => ?_, hkind⟩
    rw [Parser.parseTokens_of_error p (he d).1]
    obtain ⟨more, hmore⟩ := (he d).2
    refine ⟨rfl, ?_⟩
    dsimp only [Draft.rollback] at hmore ⊢
    rw [← hmore, List.take_left]

theorem transitions_length_le {ts : List Token} (hfuel : 2 * (ts.length + 1) ≤ p.fuel) (d : Draft) :
    (p.transitions ts d).length ≤ 2 * (ts.length + 1) := by
  have hact (a : Action) (context : Context) (d : Draft) :
      (p.act a context d).draft.version = d.version := by rw [hp.act_eq, act_version]
  have hshort : (p.walk (2 * (ts.length + 1)) [p.graph.root] ts d).verdict ≠
      .error (.fuelExhausted p.fuel) := by
    rcases hp.walk_root_concludes (2 * (ts.length + 1)) ts with ⟨c, hc⟩ | ⟨e, he, hkind⟩
    · rw [(hc d).1]
      nofun
    · rw [(he d).1]
      rcases hkind with ⟨pe, rfl⟩ | ⟨-, hnot⟩
      · nofun
      · exact absurd (Nat.le_refl _) hnot
  obtain ⟨more, hmore⟩ := Nat.le.dest hfuel
  have hwalk := p.walk_add (2 * (ts.length + 1)) more [p.graph.root] ts d hshort
  have hlong := p.version_walk hact p.fuel [p.graph.root] ts d
  rw [← hmore, hwalk, p.version_walk hact] at hlong
  have hlength := p.trace_length_le (2 * (ts.length + 1)) [p.graph.root] ts d
  rw [Parser.transitions, ← hmore]
  omega

/-- A statement text leaves what a fresh draft would get from it. -/
theorem clauses_parseInto (sql : String) (d : Draft) :
    (p.parseInto sql d).draft.clauses = d.clauses ++ (p.parse sql).toOption.getD [] := by
  unfold Parser.parse Parser.parseInto
  cases tokenize p.lexer sql with
  | error e => simp [Except.map, Except.toOption]
  | ok ts =>
    rcases hp.parseTokens_concludes ts with ⟨c, hc⟩ | ⟨e, he, -⟩
    · simp [(hc d).2, (hc {}).1, (hc {}).2, Except.map, Except.toOption]
    · simp [(he d).2, (he {}).1, Except.map, Except.toOption]

/-- A statement text fares as it does on its own. -/
theorem verdict_parseInto (sql : String) (d : Draft) :
    (p.parseInto sql d).verdict = (p.parse sql).map fun _ => () := by
  unfold Parser.parse Parser.parseInto
  cases tokenize p.lexer sql with
  | error e => rfl
  | ok ts =>
    rcases hp.parseTokens_concludes ts with ⟨c, hc⟩ | ⟨e, he, -⟩
    · simp [(hc d).1, (hc {}).1, Except.map]
    · simp [(he d).1, (he {}).1, Except.map]

theorem clauses_feed (sqls : List String) (d : Draft) :
    (p.feed sqls d).clauses = d.clauses ++ sqls.flatMap fun sql => (p.parse sql).toOption.getD [] := by
  induction sqls generalizing d with
  | nil => simp [Parser.feed]
  | cons sql sqls ih =>
    have hcons : p.feed (sql :: sqls) d = p.feed sqls (p.parseInto sql d).draft := rfl
    rw [hcons, ih, hp.clauses_parseInto, List.flatMap_cons, List.append_assoc]

/-- The symbols of an accepted statement spell a valid definition. -/
theorem exists_definition {ts : List Token} {d : Draft}
    (h : (p.parseTokens ts d).verdict = .ok ()) : ∃ s : Definition, s.Spells ts ∧ s.IsValid := by
  obtain ⟨e, he, -⟩ := Option.map_eq_some_iff.1 (hp.run_of_ok h)
  have hreads := reads_of_run he
  obtain ⟨s, hs⟩ := hreads.definition
  refine ⟨s, forall₂_matches_iff.2 ⟨hs, hs ▸ other_notMem_of_reads hreads⟩, ?_⟩
  rw [hs, run_symbols] at he
  by_contra hvalid
  rw [if_neg hvalid] at he
  cases he

theorem clauses_of_spells {ts : List Token} {d : Draft}
    (h : (p.parseTokens ts d).verdict = .ok ()) {s : Definition} (hs : s.Spells ts) :
    (p.parseTokens ts d).draft.clauses = d.clauses ++ [s.clause] := by
  have hrun := hp.run_of_ok h
  rw [(forall₂_matches_iff.1 hs).1, run_symbols] at hrun
  split at hrun
  · exact (Option.some.inj hrun).symm
  · cases hrun

theorem parseTokens_ok_of_spells {ts : List Token} (hfuel : 2 * (ts.length + 1) ≤ p.fuel) (d : Draft)
    {s : Definition} (hs : s.Spells ts) (hvalid : s.IsValid) :
    (p.parseTokens ts d).verdict = .ok () := by
  have hkept := hp.kept_parseTokens hfuel d
  rw [(forall₂_matches_iff.1 hs).1, run_symbols, if_pos hvalid] at hkept
  cases hv : (p.parseTokens ts d).verdict with
  | ok u => rfl
  | error e => rw [Outcome.kept_of_error hv] at hkept; cases hkept

end Follows

section Parser

theorem fuel_le_parser_fuel {ts : List Token} (h : ts.length ≤ 499999) :
    2 * (ts.length + 1) ≤ parser.fuel := by
  rw [parser_fuel, Parser.defaultFuel]
  omega

/-- The plainest tokens of a statement. -/
def Definition.tokens (s : Definition) : List Token := s.symbols.map Symbol.token

/-- The index of one column that the examples are about. -/
def smallIndex : Definition := .index { name := "i", table := "t", columns := ⟨⟨"a", none⟩, []⟩ }

theorem smallIndex_spells : smallIndex.Spells smallIndex.tokens := by
  refine forall₂_matches_iff.2 ⟨?_, by decide⟩
  rw [Definition.tokens, List.map_map]
  simp [Function.comp_def]

/-- The parser takes a statement as a whole or not at all, whatever the draft holds before it. It puts one
clause behind the others, or rejects the statement and keeps the clauses. The version counts the steps.
Texts that are no tokens change nothing, and a sequence of texts adds what each adds to a fresh draft. -/
theorem parser_takes_statements_whole (ts : List Token) (hts : ts.length ≤ 499999) :
    ((∃ c, ∀ d, (parser.parseTokens ts d).verdict = .ok () ∧
        (parser.parseTokens ts d).draft.clauses = d.clauses ++ [c]) ∨
      ∃ e, ∀ d, (parser.parseTokens ts d).verdict = .error (.parse e) ∧
        (parser.parseTokens ts d).draft.clauses = d.clauses) ∧
    (∀ d, (parser.parseTokens ts d).draft.version = d.version + (parser.transitions ts d).length ∧
      (parser.transitions ts d).length ≤ 2 * (ts.length + 1)) ∧
    (∀ sql d, match tokenize lexer sql with
      | .error e => parser.parseInto sql d = ⟨d, .error (.lex e)⟩
      | .ok ts => parser.parseInto sql d = parser.parseTokens ts d) ∧
    ∀ sqls d, (parser.feed sqls d).clauses =
      d.clauses ++ sqls.flatMap fun sql => (parse sql).toOption.getD [] := by
  have hfuel := fuel_le_parser_fuel hts
  refine ⟨?_, fun d => ⟨?_, parser_follows.transitions_length_le hfuel d⟩, fun sql d => ?_,
    parser_follows.clauses_feed⟩
  · rcases parser_follows.parseTokens_concludes ts with hc | ⟨e, he, ⟨pe, rfl⟩ | ⟨-, hnot⟩⟩
    · exact .inl hc
    · exact .inr ⟨pe, he⟩
    · exact absurd hfuel hnot
  · refine parser.version_parseTokens (fun a context d => ?_) ts d
    rw [parser_act, act_version]
  · have hlexer : parser.lexer = lexer := parser_lexer
    unfold Parser.parseInto
    rw [hlexer]
    cases tokenize lexer sql <;> rfl

theorem parser_takes_statements_whole_of_smallIndex : smallIndex.tokens.length ≤ 499999 ∧
    ∀ d, (parser.parseTokens smallIndex.tokens d).draft.version =
      d.version + (parser.transitions smallIndex.tokens d).length :=
  ⟨by decide, fun d => ((parser_takes_statements_whole smallIndex.tokens (by decide)).2.1 d).1⟩

/-- The parser accepts the spellings of valid statements, and nothing else. -/
theorem parseTokens_ok_iff_spells (ts : List Token) (hts : ts.length ≤ 499999) (d : Draft) :
    (parser.parseTokens ts d).verdict = .ok () ↔ ∃ s : Definition, s.Spells ts ∧ s.IsValid := by
  constructor
  · exact parser_follows.exists_definition
  · rintro ⟨s, hs, hvalid⟩
    exact parser_follows.parseTokens_ok_of_spells (fuel_le_parser_fuel hts) d hs hvalid

theorem parseTokens_ok_of_smallIndex :
    (parser.parseTokens smallIndex.tokens {}).verdict = .ok () :=
  (parseTokens_ok_iff_spells smallIndex.tokens (by decide) {}).2
    ⟨smallIndex, smallIndex_spells, trivial⟩

/-- An accepted statement adds the clause that its spelling stands for. -/
theorem clauses_parseTokens_of_ok (ts : List Token) (d : Draft)
    (h : (parser.parseTokens ts d).verdict = .ok ()) :
    (∃ s : Definition, s.Spells ts) ∧ ∀ s : Definition, s.Spells ts →
      (parser.parseTokens ts d).draft.clauses = d.clauses ++ [s.clause] := by
  constructor
  · obtain ⟨s, hs, -⟩ := parser_follows.exists_definition h
    exact ⟨s, hs⟩
  · intro s hs
    exact parser_follows.clauses_of_spells h hs

theorem clauses_parseTokens_smallIndex :
    (parser.parseTokens smallIndex.tokens {}).draft.clauses = [smallIndex.clause] :=
  (clauses_parseTokens_of_ok smallIndex.tokens {}
    (parser_follows.parseTokens_ok_of_spells (fuel_le_parser_fuel (by decide)) {} smallIndex_spells
      trivial)).2 smallIndex smallIndex_spells

end Parser

end Sqlite
end DdlSchema
