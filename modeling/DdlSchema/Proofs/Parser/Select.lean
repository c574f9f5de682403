import DdlSchema.Parser.Basic
import DdlSchema.Proofs.Graph.Explore
import Mathlib.Data.List.Perm.Subperm
import Mathlib.Order.Lattice.Nat

/-! What the next token selects. A node accepts it when idle nodes lead from there to one that fits, and
what is selected from inside an idle node is one idle node nearer to it, whatever cycles there are. -/
namespace DdlSchema

namespace NodeKind

theorem consumes_of_accepts {kind : NodeKind} {token : TokenKind} {reserved : ReservedWords}
    (h : kind.accepts token reserved = true) : kind.consumes = true := by
  cases kind <;> first | rfl | simp [accepts] at h

/-- A kind that consumes nothing and does not end the statement is idle. -/
theorem eq_idle {kind : NodeKind} (hfinish : kind ≠ .finish) (hconsumes : kind.consumes ≠ true) :
    kind = .idle := by
  cases kind <;> simp_all [consumes]

end NodeKind

namespace Parser

variable {Hook : Type} (p : Parser Hook)

section Accepts

variable {p} {next : Option Token} {id : Nat}

theorem kind_ne_idle_of_fits (h : p.fits next id = true) : (p.graph.node id).kind ≠ .idle := by
  intro hidle
  unfold fits at h
  cases next <;> simp [hidle, NodeKind.accepts] at h

theorem fits_of_finish (h : (p.graph.node id).kind = .finish) : p.fits next id = next.isNone := by
  unfold fits
  rw [h]

theorem fits_of_consumes (h : (p.graph.node id).kind.consumes = true) : p.fits next id = true ↔
    ∃ t, next = some t ∧ (p.graph.node id).kind.accepts t.kind p.reserved = true := by
  unfold fits
  cases next <;> cases hk : (p.graph.node id).kind <;> simp [hk, NodeKind.consumes] at h ⊢

theorem accepts_iff : p.accepts next id = true ↔
    ∃ e, Relation.ReflTransGen (fun a b => b ∈ p.graph.idleSuccessors a) id e ∧
      p.fits next e = true := by
  simp only [accepts, List.any_eq_true, Graph.mem_frontier, List.mem_singleton, exists_eq_left]
  constructor
  · rintro ⟨e, ⟨hreach, -⟩, hfits⟩
    exact ⟨e, hreach, hfits⟩
  · rintro ⟨e, hreach, hfits⟩
    exact ⟨e, ⟨hreach, kind_ne_idle_of_fits hfits⟩, hfits⟩

/-- An idle node accepts what one of its successors accepts. -/
theorem accepts_of_idle (h : (p.graph.node id).kind = .idle) :
    p.accepts next id = true ↔ ∃ s ∈ p.graph.successors id, p.accepts next s = true := by
  simp only [accepts_iff]
  constructor
  · rintro ⟨e, hreach, hfits⟩
    rcases hreach.cases_head with rfl | ⟨s, hs, hreach⟩
    · exact absurd h (kind_ne_idle_of_fits hfits)
    · exact ⟨s, ((Graph.mem_idleSuccessors _).1 hs).2, e, hreach, hfits⟩
  · rintro ⟨s, hs, e, hreach, hfits⟩
    exact ⟨e, hreach.head ((Graph.mem_idleSuccessors _).2 ⟨h, hs⟩), hfits⟩

/-- Any other node accepts what fits itself. -/
theorem accepts_of_ne_idle (h : (p.graph.node id).kind ≠ .idle) :
    p.accepts next id = p.fits next id := by
  rw [Bool.eq_iff_iff, accepts_iff]
  constructor
  · rintro ⟨e, hreach, hfits⟩
    rcases hreach.cases_head with rfl | ⟨s, hs, -⟩
    · exact hfits
    · exact absurd ((Graph.mem_idleSuccessors _).1 hs).1 h
  · exact fun hfits => ⟨id, .refl, hfits⟩

end Accepts

section Select

variable {p} {candidates : List Nat} {next : Option Token} {id : Nat}

/-- What a selection can be. -/
theorem select_cases (candidates : List Nat) (next : Option Token) :
    (∃ id, candidates.filter (p.accepts next) = [id] ∧ p.select candidates next = .ok id) ∨
    (∃ e, (∀ c ∈ candidates, p.accepts next c = false) ∧
      p.select candidates next = .error (.parse e)) ∨
    ∃ found nodes span, p.select candidates next = .error (.ambiguous found nodes span) := by
  match hf : candidates.filter (p.accepts next) with
  | [id] => exact .inl ⟨id, rfl, by simp only [select, hf]⟩
  | [] =>
    have hnone : ∀ c ∈ candidates, p.accepts next c = false := by simpa using hf
    refine .inr (.inl ?_)
    simp only [select, hf]
    cases next with
    | none => exact ⟨_, hnone, rfl⟩
    | some t => exact ⟨_, hnone, rfl⟩
  | a :: b :: more =>
    simp only [select, hf]
    exact .inr (.inr ⟨_, _, _, rfl⟩)

theorem filter_of_select (h : p.select candidates next = .ok id) :
    candidates.filter (p.accepts next) = [id] := by
  rcases p.select_cases candidates next with ⟨c, hf, hc⟩ | ⟨e, -, he⟩ | ⟨f, n, s, he⟩
  · rw [hc] at h
    rw [hf, Except.ok.inj h]
  · rw [he] at h
    cases h
  · rw [he] at h
    cases h

theorem mem_of_select (h : p.select candidates next = .ok id) : id ∈ candidates :=
  List.mem_of_mem_filter (by rw [filter_of_select h]; exact List.mem_singleton_self id)

theorem accepts_of_select (h : p.select candidates next = .ok id) : p.accepts next id = true :=
  List.of_mem_filter (by rw [filter_of_select h]; exact List.mem_singleton_self id)

/-- What is selected is the only candidate that accepts. -/
theorem eq_of_select (h : p.select candidates next = .ok id) {c : Nat} (hc : c ∈ candidates)
    (haccepts : p.accepts next c = true) : c = id := by
  have hmem : c ∈ candidates.filter (p.accepts next) := List.mem_filter.2 ⟨hc, haccepts⟩
  rwa [filter_of_select h, List.mem_singleton] at hmem

theorem fits_of_select (h : p.select candidates next = .ok id)
    (hk : (p.graph.node id).kind ≠ .idle) : p.fits next id = true := by
  rw [← accepts_of_ne_idle hk]
  exact accepts_of_select h

/-- A token is refused only where no candidate accepts it. -/
theorem accepts_of_refused {e : ParseError}
    (h : p.select candidates next = .error (.parse e)) {c : Nat} (hc : c ∈ candidates) :
    p.accepts next c = false := by
  rcases p.select_cases candidates next with ⟨id, -, hid⟩ | ⟨e, hnone, -⟩ | ⟨f, n, s, he⟩
  · rw [hid] at h
    cases h
  · exact hnone c hc
  · rw [he] at h
    cases h

theorem select_ne_fuelExhausted (limit : Nat) :
    p.select candidates next ≠ .error (.fuelExhausted limit) := by
  rcases p.select_cases candidates next with ⟨id, -, h⟩ | ⟨e, -, h⟩ | ⟨f, n, s, h⟩ <;>
    rw [h] <;> nofun

end Select

section Depth

/-- So many idle nodes in a row lead from a node to one that fits the next token. -/
inductive Leads (next : Option Token) : Nat → Nat → Prop
  | here {id : Nat} (h : p.fits next id = true) : Leads next 0 id
  | passed {k id s : Nat} (hid : (p.graph.node id).kind = .idle) (hs : s ∈ p.graph.successors id)
    (h : Leads next k s) : Leads next (k + 1) id

/-- The fewest idle nodes that lead from a node to one that fits the next token. -/
noncomputable def depth (next : Option Token) (id : Nat) : Nat := sInf {k | p.Leads next k id}

variable {p} {next : Option Token} {id : Nat}

theorem Leads.accepts {k : Nat} (h : p.Leads next k id) : p.accepts next id = true := by
  induction h with
  | here hfits => exact (accepts_of_ne_idle (kind_ne_idle_of_fits hfits)).trans hfits
  | passed hid hs _ ih => exact (accepts_of_idle hid).2 ⟨_, hs, ih⟩

theorem exists_leads (h : p.accepts next id = true) : ∃ k, p.Leads next k id := by
  obtain ⟨e, hreach, hfits⟩ := accepts_iff.1 h
  induction hreach using Relation.ReflTransGen.head_induction_on with
  | refl => exact ⟨0, .here hfits⟩
  | head hedge _ ih =>
    obtain ⟨hid, hs⟩ := (Graph.mem_idleSuccessors _).1 hedge
    obtain ⟨k, hk⟩ := ih (accepts_iff.2 ⟨e, ‹_›, hfits⟩)
    exact ⟨k + 1, .passed hid hs hk⟩

theorem leads_depth (h : p.accepts next id = true) : p.Leads next (p.depth next id) id :=
  Nat.sInf_mem (exists_leads h)

theorem Leads.depth_le {k : Nat} (h : p.Leads next k id) : p.depth next id ≤ k := Nat.sInf_le h

/-- An idle node that accepts the next token has a successor that is nearer to what fits. -/
theorem exists_depth_add_one (hid : (p.graph.node id).kind = .idle)
    (h : p.accepts next id = true) :
    ∃ s ∈ p.graph.successors id, p.accepts next s = true ∧
      p.depth next id = p.depth next s + 1 := by
  cases hk : p.depth next id with
  | zero =>
    have hleads := leads_depth h
    rw [hk] at hleads
    cases hleads with
    | here hfits => exact absurd hid (kind_ne_idle_of_fits hfits)
  | succ k =>
    have hleads := leads_depth h
    rw [hk] at hleads
    cases hleads with
    | passed _ hs hrest =>
      have haccepts := hrest.accepts
      have hle := hrest.depth_le
      have hge := (Leads.passed hid hs (leads_depth haccepts)).depth_le
      exact ⟨_, hs, haccepts, by omega⟩

/-- What is selected behind an idle node is nearer to what fits. So the walk comes to no idle node twice
before it takes the token. -/
theorem depth_of_select {s : Nat} (hid : (p.graph.node id).kind = .idle)
    (h : p.accepts next id = true) (hs : p.select (p.graph.successors id) next = .ok s) :
    p.depth next id = p.depth next s + 1 := by
  obtain ⟨c, hc, haccepts, hdepth⟩ := exists_depth_add_one hid h
  rwa [eq_of_select hs hc haccepts] at hdepth

/-- Every depth up to that of a node is the depth of an idle node. -/
theorem exists_idle_of_le_depth {k : Nat} (h : p.accepts next id = true) (hpos : 0 < k)
    (hk : k ≤ p.depth next id) :
    ∃ x < p.graph.size, (p.graph.node x).kind = .idle ∧ p.depth next x = k := by
  induction hd : p.depth next id generalizing id with
  | zero => omega
  | succ n ih =>
    have hleads := leads_depth h
    rw [hd] at hleads
    cases hleads with
    | passed hid hs _ =>
      by_cases heq : k = n + 1
      · exact ⟨id, Graph.lt_size_of_mem_successors _ hs, hid, by omega⟩
      · obtain ⟨s, -, haccepts, hdepth⟩ := exists_depth_add_one hid h
        exact ih haccepts (by omega) (by omega)

theorem depth_le_idleCount (h : p.accepts next id = true) :
    p.depth next id ≤ p.graph.idleCount := by
  have hsub : List.range' 1 (p.depth next id) ⊆ p.graph.idleNodes.map (p.depth next) := by
    intro k hk
    obtain ⟨hpos, hle⟩ := List.mem_range'_1.1 hk
    obtain ⟨x, hx, hidle, hdepth⟩ := exists_idle_of_le_depth h hpos (by omega)
    exact List.mem_map.2 ⟨x, p.graph.mem_idleNodes.2 ⟨hx, hidle⟩, hdepth⟩
  have hlength := (List.Nodup.subperm List.nodup_range' hsub).length_le
  rwa [List.length_range', List.length_map, ← Graph.idleCount_eq] at hlength

end Depth

end Parser
end DdlSchema
