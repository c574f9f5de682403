import DdlSchema.Proofs.Parser.Expected
import Mathlib.Data.Finset.Card

/-! What fits behind a node is what idle nodes lead to. The same search, written as a recursion that passes
the nodes it has entered from one successor to the next, comes to its end and gives the same answer. -/
namespace DdlSchema
namespace Parser

variable {Hook : Type}

section Seek

/-- Searches some nodes in order up to the first success. Each search goes on with what those before it
have seen. -/
def seekAny (search : List Nat → Nat → Option (Bool × List Nat)) (seen : List Nat) :
    List Nat → Option (Bool × List Nat)
  | [] => some (false, seen)
  | id :: ids =>
    match search seen id with
    | some (false, seen) => seekAny search seen ids
    | result => result

/-- Whether something fits behind a node, with the idle nodes entered so far. None is entered twice. The
fuel is the number of nodes that may stand in a row; without it there is no answer. -/
def seek (p : Parser Hook) (next : Option Token) :
    Nat → List Nat → Nat → Option (Bool × List Nat)
  | 0, _, _ => none
  | fuel + 1, seen, id =>
    if (p.graph.node id).kind = .idle then
      if id ∈ seen then some (false, seen)
      else seekAny (p.seek next fuel) (id :: seen) (p.graph.successors id)
    else some (p.fits next id, seen)

variable {p : Parser Hook} {next : Option Token} {fuel id : Nat} {seen seen' : List Nat}

theorem seek_seen (hid : (p.graph.node id).kind = .idle) (hseen : id ∈ seen) :
    p.seek next (fuel + 1) seen id = some (false, seen) := by rw [seek, if_pos hid, if_pos hseen]

theorem seek_entered (hid : (p.graph.node id).kind = .idle) (hseen : id ∉ seen) :
    p.seek next (fuel + 1) seen id =
      seekAny (p.seek next fuel) (id :: seen) (p.graph.successors id) := by
  rw [seek, if_pos hid, if_neg hseen]

theorem seek_met (hid : (p.graph.node id).kind ≠ .idle) :
    p.seek next (fuel + 1) seen id = some (p.fits next id, seen) := by rw [seek, if_neg hid]

theorem exists_of_seekAny {search : List Nat → Nat → Option (Bool × List Nat)} {ids : List Nat}
    (h : seekAny search seen ids = some (true, seen')) :
    ∃ id ∈ ids, ∃ before, search before id = some (true, seen') := by
  induction ids generalizing seen with
  | nil => cases h
  | cons id ids ih =>
    rw [seekAny] at h
    split at h
    case h_1 =>
      obtain ⟨id', hid', hfound⟩ := ih h
      exact ⟨id', List.mem_cons_of_mem id hid', hfound⟩
    case h_2 => exact ⟨id, List.mem_cons_self, seen, h⟩

/-- What a search finds is there. -/
theorem accepts_of_seek (h : p.seek next fuel seen id = some (true, seen')) :
    p.accepts next id = true := by
  induction fuel generalizing seen id with
  | zero => cases h
  | succ fuel ih =>
    by_cases hid : (p.graph.node id).kind = .idle
    · by_cases hseen : id ∈ seen
      · rw [seek_seen hid hseen] at h
        cases h
      · rw [seek_entered hid hseen] at h
        obtain ⟨s, hs, _, hfound⟩ := exists_of_seekAny h
        exact (accepts_of_idle hid).2 ⟨s, hs, ih hfound⟩
    · rw [seek_met hid] at h
      rw [accepts_of_ne_idle hid]
      exact congrArg Prod.fst (Option.some.inj h)

end Seek

section Failure

variable {p : Parser Hook} {next : Option Token} {fuel id : Nat} {seen seen' seen'' : List Nat}

/-- A node that is done with: it does not fit, and if it is idle it has been entered. -/
def IsDone (p : Parser Hook) (next : Option Token) (seen : List Nat) (id : Nat) : Prop :=
  p.fits next id = false ∧ ((p.graph.node id).kind = .idle → id ∈ seen)

/-- What a search without success leaves behind. The nodes entered before it may still be in progress; of
those that it has entered itself all successors are done with. -/
structure Leaves (p : Parser Hook) (next : Option Token) (seen seen' : List Nat) : Prop where
  subset : seen ⊆ seen'
  done : ∀ x ∈ seen', x ∈ seen ∨ ∀ s ∈ p.graph.successors x, p.IsDone next seen' s

theorem IsDone.mono (h : p.IsDone next seen id) (hsub : seen ⊆ seen') : p.IsDone next seen' id :=
  ⟨h.1, fun hid => hsub (h.2 hid)⟩

theorem Leaves.refl (p : Parser Hook) (next : Option Token) (seen : List Nat) :
    p.Leaves next seen seen := ⟨List.Subset.refl seen, fun _ => .inl⟩

theorem Leaves.trans (h : p.Leaves next seen seen') (h' : p.Leaves next seen' seen'') :
    p.Leaves next seen seen'' := by
  refine ⟨List.Subset.trans h.subset h'.subset, fun x hx => ?_⟩
  rcases h'.done x hx with hx | hdone
  · rcases h.done x hx with hx | hdone
    · exact .inl hx
    · exact .inr fun s hs => (hdone s hs).mono h'.subset
  · exact .inr hdone

theorem fits_of_idle (hid : (p.graph.node id).kind = .idle) : p.fits next id = false :=
  Bool.eq_false_iff.2 fun h => kind_ne_idle_of_fits h hid

/-- An idle node is done with once its successors are. -/
theorem Leaves.enter (hid : (p.graph.node id).kind = .idle) (h : p.Leaves next (id :: seen) seen')
    (hdone : ∀ s ∈ p.graph.successors id, p.IsDone next seen' s) :
    p.Leaves next seen seen' ∧ p.IsDone next seen' id := by
  refine ⟨⟨fun x hx => h.subset (List.mem_cons_of_mem id hx), fun x hx => ?_⟩,
    fits_of_idle hid, fun _ => h.subset List.mem_cons_self⟩
  rcases h.done x hx with hx | hx
  · rcases List.mem_cons.1 hx with rfl | hx
    · exact .inr hdone
    · exact .inl hx
  · exact .inr hx

theorem leaves_seekAny {search : List Nat → Nat → Option (Bool × List Nat)} {ids : List Nat}
    (hsearch : ∀ seen seen' id, search seen id = some (false, seen') →
      p.Leaves next seen seen' ∧ p.IsDone next seen' id)
    (h : seekAny search seen ids = some (false, seen')) :
    p.Leaves next seen seen' ∧ ∀ s ∈ ids, p.IsDone next seen' s := by
  induction ids generalizing seen with
  | nil =>
    cases h
    exact ⟨.refl p next _, nofun⟩
  | cons id ids ih =>
    rw [seekAny] at h
    split at h
    case h_1 seen₁ hfirst =>
      obtain ⟨hleaves, hdone⟩ := hsearch _ _ _ hfirst
      obtain ⟨hleaves', hdone'⟩ := ih h
      refine ⟨hleaves.trans hleaves', fun s hs => ?_⟩
      rcases List.mem_cons.1 hs with rfl | hs
      · exact hdone.mono hleaves'.subset
      · exact hdone' s hs
    case h_2 hfirst => exact absurd h (hfirst seen')

/-- A search that finds nothing is done with its node. -/
theorem leaves_seek (h : p.seek next fuel seen id = some (false, seen')) :
    p.Leaves next seen seen' ∧ p.IsDone next seen' id := by
  induction fuel generalizing seen id seen' with
  | zero => cases h
  | succ fuel ih =>
    by_cases hid : (p.graph.node id).kind = .idle
    · by_cases hseen : id ∈ seen
      · rw [seek_seen hid hseen] at h
        cases h
        exact ⟨.refl p next seen, fits_of_idle hid, fun _ => hseen⟩
      · rw [seek_entered hid hseen] at h
        obtain ⟨hleaves, hdone⟩ := leaves_seekAny (fun _ _ _ => ih) h
        exact hleaves.enter hid hdone
    · rw [seek_met hid] at h
      obtain ⟨hfits, rfl⟩ := Prod.mk.inj (Option.some.inj h)
      exact ⟨.refl p next seen, hfits, fun hidle => absurd hidle hid⟩

/-- From a node that is done with, idle nodes lead to no others. -/
theorem IsDone.of_reach {e : Nat} (h : p.IsDone next seen' id) (hleaves : p.Leaves next [] seen')
    (hreach : Relation.ReflTransGen (fun a b => b ∈ p.graph.idleSuccessors a) id e) :
    p.IsDone next seen' e := by
  induction hreach with
  | refl => exact h
  | tail _ hedge ih =>
    obtain ⟨hidle, hs⟩ := (Graph.mem_idleSuccessors _).1 hedge
    rcases hleaves.done _ (ih.2 hidle) with hnil | hdone
    · cases hnil
    · exact hdone _ hs

theorem IsDone.not_accepts (h : p.IsDone next seen' id) (hleaves : p.Leaves next [] seen') :
    p.accepts next id = false := by
  rw [← Bool.not_eq_true, accepts_iff]
  rintro ⟨e, hreach, hfits⟩
  rw [(h.of_reach hleaves hreach).1] at hfits
  cases hfits

end Failure

section Termination

variable {p : Parser Hook} {next : Option Token} {fuel id : Nat} {seen seen' : List Nat}

/-- The number of idle nodes not entered yet. -/
def unseen (p : Parser Hook) (seen : List Nat) : Nat :=
  (p.graph.idleNodes.toFinset \ seen.toFinset).card

theorem unseen_le (h : seen ⊆ seen') : p.unseen seen' ≤ p.unseen seen := by
  refine Finset.card_le_card (Finset.sdiff_subset_sdiff (Finset.Subset.refl _) ?_)
  exact fun x hx => List.mem_toFinset.2 (h (List.mem_toFinset.1 hx))

theorem unseen_cons_lt (hid : id ∈ p.graph.idleNodes) (hseen : id ∉ seen) :
    p.unseen (id :: seen) < p.unseen seen := by
  refine Finset.card_lt_card (Finset.ssubset_iff_subset_ne.2 ⟨?_, fun heq => ?_⟩)
  · exact Finset.sdiff_subset_sdiff (Finset.Subset.refl _) (by simp)
  · have hmem : id ∈ p.graph.idleNodes.toFinset \ seen.toFinset := by simp [hid, hseen]
    rw [← heq] at hmem
    simp at hmem

theorem unseen_nil_le : p.unseen [] ≤ p.graph.idleCount := by
  rw [unseen, List.toFinset_nil, Finset.sdiff_empty, Graph.idleCount_eq]
  exact List.toFinset_card_le _

/-- A search among siblings comes to its end, as each one has entered no fewer nodes than those before it. -/
theorem exists_seekAny {ids : List Nat}
    (hsearch : ∀ seen id, p.unseen seen < fuel → ∃ r, p.seek next fuel seen id = some r)
    (hfuel : p.unseen seen < fuel) : ∃ r, seekAny (p.seek next fuel) seen ids = some r := by
  induction ids generalizing seen with
  | nil => exact ⟨_, rfl⟩
  | cons id ids ih =>
    obtain ⟨⟨found, seen'⟩, hfirst⟩ := hsearch seen id hfuel
    rw [seekAny, hfirst]
    cases found with
    | true => exact ⟨_, rfl⟩
    | false => exact ih (Nat.lt_of_le_of_lt (unseen_le (leaves_seek hfirst).1.subset) hfuel)

/-- A search comes to its end, as it enters an idle node only once. -/
theorem exists_seek (hfuel : p.unseen seen < fuel) : ∃ r, p.seek next fuel seen id = some r := by
  induction fuel generalizing seen id with
  | zero => omega
  | succ fuel ih =>
    by_cases hid : (p.graph.node id).kind = .idle
    · by_cases hseen : id ∈ seen
      · exact ⟨_, seek_seen hid hseen⟩
      · rw [seek_entered hid hseen]
        by_cases hsize : id < p.graph.size
        · have hless := unseen_cons_lt (p.graph.mem_idleNodes.2 ⟨hsize, hid⟩) hseen
          exact exists_seekAny (fun _ _ => ih) (by omega)
        · rw [p.graph.successors_of_size_le (Nat.le_of_not_lt hsize)]
          exact ⟨_, rfl⟩
    · exact ⟨_, seek_met hid⟩

/-- With nothing entered before, the search answers for all that idle nodes lead to. No more of them stand
in a row than there are. -/
theorem seek_eq_accepts (hfuel : p.graph.idleCount < fuel) :
    ∃ seen, p.seek next fuel [] id = some (p.accepts next id, seen) := by
  have hends : ∃ r, p.seek next fuel [] id = some r :=
    exists_seek (Nat.lt_of_le_of_lt unseen_nil_le hfuel)
  obtain ⟨⟨found, seen⟩, hfound⟩ := hends
  refine ⟨seen, ?_⟩
  cases found with
  | true => rw [hfound, accepts_of_seek hfound]
  | false =>
    obtain ⟨hleaves, hdone⟩ := leaves_seek hfound
    rw [hfound, hdone.not_accepts hleaves]

end Termination

section Reachability

variable {p : Parser Hook} {next : Option Token} {id : Nat}

theorem fits_iff : p.fits next id = true ↔
    match next with
    | none => (p.graph.node id).kind = .finish
    | some t => (p.graph.node id).kind.accepts t.kind p.reserved = true := by
  unfold fits
  cases next <;> cases hk : (p.graph.node id).kind <;> simp [NodeKind.accepts]

/-- Nodes of the same kinds, with the same successors in another order, accept the same. -/
theorem accepts_congr {q : Parser Hook} (hreserved : q.reserved = p.reserved)
    (hkind : ∀ a, (q.graph.node a).kind = (p.graph.node a).kind)
    (hsuccessors : ∀ a, (q.graph.successors a).Perm (p.graph.successors a)) :
    q.accepts next id = p.accepts next id := by
  have hedge (a b : Nat) : b ∈ q.graph.idleSuccessors a ↔ b ∈ p.graph.idleSuccessors a := by
    rw [Graph.mem_idleSuccessors, Graph.mem_idleSuccessors, hkind, (hsuccessors a).mem_iff]
  have hfits (e : Nat) : q.fits next e = p.fits next e := by simp only [fits, hkind, hreserved]
  rw [Bool.eq_iff_iff, accepts_iff, accepts_iff]
  simp only [hedge, hfits]

/-- Looking through idle nodes is reachability. The search through them comes to its end, with nothing
entered before: it needs no more fuel than there are idle nodes, and one. A node accepts a token, or the
end, iff idle nodes lead from it to one that is not idle and takes it, and so the order of the successors
does not matter. -/
theorem accepts_is_reachability (p : Parser Hook) (next : Option Token) (id : Nat) :
    (∀ fuel, p.graph.idleCount < fuel →
      ∃ seen, p.seek next fuel [] id = some (p.accepts next id, seen)) ∧
    (p.accepts next id = true ↔ ∃ e, (p.graph.node e).kind ≠ .idle ∧
      Relation.ReflTransGen
        (fun a b => (p.graph.node a).kind = .idle ∧ b ∈ p.graph.successors a) id e ∧
      match next with
      | none => (p.graph.node e).kind = .finish
      | some t => (p.graph.node e).kind.accepts t.kind p.reserved = true) ∧
    ∀ q : Parser Hook, q.reserved = p.reserved →
      (∀ a, (q.graph.node a).kind = (p.graph.node a).kind) →
      (∀ a, (q.graph.successors a).Perm (p.graph.successors a)) →
        q.accepts next id = p.accepts next id := by
  refine ⟨fun fuel => seek_eq_accepts, ?_, fun q => accepts_congr⟩
  rw [accepts_iff]
  simp only [← fits_iff, Graph.mem_idleSuccessors]
  constructor
  · rintro ⟨e, hreach, hfits⟩
    exact ⟨e, kind_ne_idle_of_fits hfits, hreach, hfits⟩
  · rintro ⟨e, -, hreach, hfits⟩
    exact ⟨e, hreach, hfits⟩

/-- Two idle nodes that lead to each other, with one of them to a word. -/
example :
    let p : Parser Empty := ofGraph {} ⟨[⟨.idle, none, none, [1]⟩, ⟨.idle, none, none, [0, 2]⟩,
      ⟨.exactWord "GO", none, none, []⟩], 0⟩ nofun
    p.seek (some ⟨.word "go", default⟩) 3 [] 0 = some (true, [1, 0]) ∧
      p.seek (some ⟨.word "stop", default⟩) 3 [] 0 = some (false, [1, 0]) := by decide

end Reachability

end Parser
end DdlSchema
