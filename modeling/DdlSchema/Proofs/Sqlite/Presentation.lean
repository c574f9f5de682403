import DdlSchema.Proofs.Sqlite.Language

/-! Statements in another presentation. The parser does not see where a token stands, in which case a
keyword is written, or whether a name stands between delimiters. -/
namespace DdlSchema
namespace Sqlite

/-- A name between delimiters, or a bare word that is not reserved. -/
def IsName (t : Token) (s : String) : Prop :=
  t.kind = .identifier s true ∨ t.kind = .word s ∧ parser.reserved.contains s = false

theorem IsName.isIdentifier {t : Token} {s : String} (h : IsName t s) : IsIdentifier t s := by
  rcases h with hk | ⟨hk, hreserved⟩
  · exact .inl hk
  · rw [parser_reserved, reserved_contains, Option.isSome_eq_false_iff, Option.isNone_iff_eq_none]
      at hreserved
    exact .inr ⟨.inl hk, Keyword.ofText?_eq_none.1 hreserved⟩

/-- Tokens that differ in nothing but their presentation. -/
inductive Alike (t u : Token) : Prop where
  | same (h : t.kind = u.kind)
  | keyword {v w : String} (ht : t.kind = .word v) (hu : u.kind = .word w)
    (hlower : Text.lower v = Text.lower w) (hreserved : parser.reserved.contains v = true)
  | name {s : String} (ht : IsName t s) (hu : IsName u s)

theorem Alike.ofToken_eq {t u : Token} (h : Alike t u) : Symbol.ofToken t = Symbol.ofToken u := by
  cases h with
  | same h => exact congrArg Symbol.ofKind h
  | @keyword v w ht hu hlower hreserved =>
    rw [parser_reserved, reserved_contains] at hreserved
    obtain ⟨k, hk⟩ := Option.isSome_iff_exists.1 hreserved
    have hv := Keyword.lower_of_ofText? hk
    have htk : (Symbol.keyword k).Matches t := ⟨v, ht, hv⟩
    have huk : (Symbol.keyword k).Matches u := ⟨w, hu, hlower.symm.trans hv⟩
    rw [Symbol.ofToken_of_matches htk, Symbol.ofToken_of_matches huk]
  | @name s ht hu =>
    have htn : (Symbol.name s).Matches t := ht.isIdentifier
    have hun : (Symbol.name s).Matches u := hu.isIdentifier
    rw [Symbol.ofToken_of_matches htn, Symbol.ofToken_of_matches hun]

/-- Every number is that of a state, or of no node. -/
theorem State.exists_id (id : Nat) : (∃ s : State, s.id = id) ∨ graph.node id = Inhabited.default := by
  by_cases hid : id < 71
  · have hall : ∀ i < 71, (State.ofNat i).id = i := by decide
    exact .inl ⟨.ofNat id, hall id hid⟩
  · exact .inr (Graph.node_of_size_le graph (Nat.le_of_not_lt hid))

/-- At the end of the statement no action is left but the one that ends a table. -/
theorem State.action_of_admits_none {s : State} {a : Action} (ha : s.action = some a)
    (h : s.admits none = true) : a = .tableEnd := by
  have hall : ∀ s ∈ all, s.admits none = true → ∀ a ∈ s.action, a = .tableEnd := by decide +kernel
  exact hall s s.mem_all h a ha

/-- The parser sees the symbols of tokens, and no more than that. -/
theorem Follows.blind {p : Parser Action} (hp : Follows p) :
    p.Blind fun t u => Symbol.ofToken t = Symbol.ofToken u where
  fits {next next'} h id := by
    have hnext : next.map Symbol.ofToken = next'.map Symbol.ofToken := by
      cases h with
      | none => rfl
      | some h => exact congrArg some h
    rcases State.exists_id id with ⟨s, rfl⟩ | hid
    · rw [hp.fits, hp.fits, hnext]
    · have hkind : (p.graph.node id).kind = .idle := by rw [hp.graph_eq, hid]; rfl
      have hidle (next : Option Token) : p.fits next id = false :=
        Bool.eq_false_iff.2 fun hfits => Parser.kind_ne_idle_of_fits hfits hkind
      rw [hidle, hidle]
  act {c c'} h {id} a hhook haccepts d := by
    rcases State.exists_id id with ⟨s, rfl⟩ | hid
    · have ha : s.action = some a := by rwa [hp.node] at hhook
      rw [hp.accepts] at haccepts
      obtain ⟨htoken, -⟩ := h
      rw [hp.act_eq, act, act]
      generalize c.token = next, c'.token = next' at htoken haccepts ⊢
      cases htoken with
      | none =>
        rw [State.action_of_admits_none ha haccepts]
        exact agree_resolveKey d none none
      | some h =>
        have hs : s.matcher ≠ .idle := by
          intro hidle
          rw [State.action_of_admits hidle haccepts] at ha
          cases ha
        rw [State.admits_of_matcher_ne_idle hs] at haccepts
        exact agrees_of_ofToken haccepts h ha d
    · rw [hp.graph_eq, hid] at hhook
      cases hhook

/-- Two statements that are alike token by token fare alike from every draft. Either both are accepted,
with the same clause and as many steps, or both are rejected at the same token, for the same reason and
with the same expectations. -/
theorem parseTokens_alike {ts us : List Token} (h : List.Forall₂ Alike ts us) (d : Draft) :
    (∃ c n, parser.parseTokens ts d = ⟨⟨d.clauses ++ [c], d.version + n⟩, .ok ()⟩ ∧
      parser.parseTokens us d = ⟨⟨d.clauses ++ [c], d.version + n⟩, .ok ()⟩) ∨
    ∃ e e', (parser.parseTokens ts d).verdict = .error e ∧
      (parser.parseTokens us d).verdict = .error e' ∧
      (parser.parseTokens ts d).draft = (parser.parseTokens us d).draft ∧
      parser.stop ts d = parser.stop us d ∧
      Error.Agree ts[parser.stop ts d]? us[parser.stop ts d]? e e' := by
  have hsymbols := h.imp fun t u => Alike.ofToken_eq
  obtain ⟨hstop, hdraft, ⟨hok, hok'⟩ | ⟨e, e', he, he', hagree⟩⟩ :=
    parser_follows.blind.parseTokens_agree hsymbols d
  · rcases parser_follows.parseTokens_concludes ts with ⟨c, hc⟩ | ⟨e, he, -⟩
    · have hversion := parser.version_parseTokens
        (fun a context d => by rw [parser_act, act_version]) ts d
      have hclauses := (hc d).2
      exact .inl ⟨c, _, Outcome.eq_of_parts hclauses hversion hok,
        Outcome.eq_of_parts (hdraft ▸ hclauses) (hdraft ▸ hversion) hok'⟩
    · rw [(he d).1] at hok
      cases hok
  · exact .inr ⟨e, e', he, he', hdraft, hstop, hagree⟩

section Instance

/-- The statement `CREATE INDEX [i] ON t (a DESC)`. -/
def loudIndex : List Token :=
  [.word "CREATE", .word "INDEX", .identifier "i" true, .word "ON", .word "t", .punctuation '(',
    .word "a", .word "DESC", .punctuation ')'].map fun kind => ⟨kind, default⟩

/-- The statement `create index i on [t] (a desc)`. -/
def quietIndex : List Token :=
  [.word "create", .word "index", .word "i", .word "on", .identifier "t" true, .punctuation '(',
    .word "a", .word "desc", .punctuation ')'].map fun kind => ⟨kind, default⟩

theorem alike_indexes : List.Forall₂ Alike loudIndex quietIndex := by
  have hkeyword {v w : String} (h : Text.lower v = Text.lower w ∧ (Keyword.ofText? v).isSome) :
      Alike ⟨.word v, default⟩ ⟨.word w, default⟩ := by
    refine .keyword rfl rfl h.1 ?_
    rw [parser_reserved, reserved_contains, h.2]
  have hname {s : String} (h : (Keyword.ofText? s).isSome = false) :
      IsName ⟨.word s, default⟩ s := by
    refine .inr ⟨rfl, ?_⟩
    rw [parser_reserved, reserved_contains, h]
  exact .cons (hkeyword (by decide +kernel)) <| .cons (hkeyword (by decide +kernel)) <|
    .cons (.name (.inl rfl) (hname (by decide +kernel))) <| .cons (hkeyword (by decide +kernel)) <|
    .cons (.name (hname (by decide +kernel)) (.inl rfl)) <| .cons (.same rfl) <|
    .cons (.same rfl) <| .cons (hkeyword (by decide +kernel)) <| .cons (.same rfl) .nil

theorem parseTokens_alike_indexes :
    List.Forall₂ Alike loudIndex quietIndex ∧
      ∃ c n, parser.parseTokens loudIndex {} = ⟨⟨[c], n⟩, .ok ()⟩ ∧
        parser.parseTokens quietIndex {} = ⟨⟨[c], n⟩, .ok ()⟩ := by
  have hok : (parser.parseTokens loudIndex {}).verdict.isOk = true := by
    rw [parser_eq]
    decide +kernel
  refine ⟨alike_indexes, ?_⟩
  rcases parseTokens_alike alike_indexes {} with ⟨c, n, hloud, hquiet⟩ | ⟨e, e', he, -⟩
  · exact ⟨c, _, hloud, hquiet⟩
  · rw [he] at hok
    cases hok

end Instance

end Sqlite
end DdlSchema
