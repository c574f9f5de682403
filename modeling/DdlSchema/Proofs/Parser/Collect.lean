import DdlSchema.Proofs.Parser.Search

/-! What stands behind some nodes, gathered by a recursion that passes the nodes it has met and the
descriptions it has found from one node to the next. It comes to its end and finds the expectations of the
parser, in their order. -/
namespace DdlSchema
namespace Graph

/-- The nodes that a search in depth meets from some waiting nodes on, when some nodes have been seen. -/
inductive Visits (next : Nat → List Nat) : List Nat → List Nat → List Nat → Prop where
  | done (seen : List Nat) : Visits next seen [] []
  | passed {seen waiting met : List Nat} {id : Nat} (hid : id ∈ seen)
    (h : Visits next seen waiting met) : Visits next seen (id :: waiting) met
  | entered {seen waiting met : List Nat} {id : Nat} (hid : id ∉ seen)
    (h : Visits next (id :: seen) (next id ++ waiting) met) :
    Visits next seen (id :: waiting) (id :: met)

section Visits

variable {next : Nat → List Nat} {seen waiting met met' : List Nat}

theorem Visits.unique (h : Visits next seen waiting met) (h' : Visits next seen waiting met') :
    met = met' := by
  induction h generalizing met' with
  | done => cases h'; rfl
  | passed hid _ ih =>
    cases h' with
    | passed _ h' => exact ih h'
    | entered hnew _ => exact absurd hid hnew
  | entered hid _ ih =>
    cases h' with
    | passed hold _ => exact absurd hold hid
    | entered _ h' => rw [ih h']

/-- What waits behind other nodes finds theirs seen. -/
theorem Visits.append (h : Visits next seen waiting met) {waiting' : List Nat}
    (h' : Visits next (met.reverse ++ seen) waiting' met') :
    Visits next seen (waiting ++ waiting') (met ++ met') := by
  induction h with
  | done => exact h'
  | passed hid _ ih => exact .passed hid (ih h')
  | @entered seen waiting met id hid _ ih =>
    rw [List.reverse_cons, List.append_assoc] at h'
    have hrest := ih h'
    rw [List.append_assoc] at hrest
    exact .entered hid hrest

theorem visits_exploreFrom {ids : List Nat} (hids : ∀ id ∉ ids, next id = []) (fuel : Nat)
    (waiting seen : List Nat) (hfuel : waiting.length + pending next ids seen ≤ fuel) :
    Visits next seen waiting (exploreFrom next .depthFirst fuel waiting seen) := by
  induction fuel generalizing waiting seen with
  | zero =>
    obtain rfl : waiting = [] := List.length_eq_zero_iff.1 (by omega)
    exact .done seen
  | succ fuel ih =>
    cases waiting with
    | nil => exact .done seen
    | cons id waiting =>
      rw [exploreFrom]
      rw [List.length_cons] at hfuel
      by_cases hseen : id ∈ seen
      · rw [if_pos hseen]
        exact .passed hseen (ih waiting seen (by omega))
      · rw [if_neg hseen]
        have hvisit := pending_enter hids hseen
        refine .entered hseen (ih (next id ++ waiting) (id :: seen) ?_)
        rw [List.length_append]
        omega

theorem visits_explore {Hook : Type} {g : Graph Hook}
    (hnext : ∀ id, (next id).Sublist (g.successors id)) (starts : List Nat) :
    Visits next [] starts (g.explore next .depthFirst starts) := by
  refine visits_exploreFrom (eq_nil_of_not_mem_range hnext) _ starts [] ?_
  rw [pending_nil]
  exact Nat.add_le_add_left (length_flatMap_le hnext) _

end Visits

end Graph

namespace Parser

variable {Hook : Type}

/-- Adds the descriptions that are not there yet. -/
def addNew (out descriptions : List String) : List String :=
  descriptions.foldl (fun out text => if text ∈ out then out else out ++ [text]) out

/-- Adds what a node stands for to the nodes met and the descriptions found so far. An idle node stands for
its successors. The fuel is the number of nodes that may stand in a row. -/
def collect (p : Parser Hook) :
    Nat → List Nat × List String → Nat → Option (List Nat × List String)
  | 0, _, _ => none
  | fuel + 1, (seen, out), id =>
    if id ∈ seen then some (seen, out)
    else if (p.graph.node id).kind = .idle then
      (p.graph.successors id).foldlM (p.collect fuel) (id :: seen, out)
    else some (id :: seen, addNew out (p.graph.node id).kind.expected)

/-- The descriptions of some nodes. -/
def descriptions (p : Parser Hook) (ids : List Nat) : List String :=
  ids.flatMap fun id => (p.graph.node id).kind.expected

section Collect

variable {p : Parser Hook} {fuel id : Nat} {seen : List Nat} {out : List String}
  {r : List Nat × List String}

theorem descriptions_append (ids ids' : List Nat) :
    p.descriptions (ids ++ ids') = p.descriptions ids ++ p.descriptions ids' := List.flatMap_append

theorem addNew_append (out xs ys : List String) :
    addNew out (xs ++ ys) = addNew (addNew out xs) ys := List.foldl_append

theorem addNew_nil (xs : List String) : addNew [] xs = xs.eraseDups := by
  induction xs using List.reverseRecOn with
  | nil => rfl
  | append_singleton xs x ih =>
    rw [addNew_append, ih, Graph.eraseDups_append_singleton]
    simp [addNew]

theorem expected_eq (candidates : List Nat) : p.expected candidates =
    (p.descriptions (p.graph.explore p.graph.idleSuccessors .depthFirst candidates)).eraseDups := by
  have hidle (ids : List Nat) : p.descriptions (ids.filter fun id => (p.graph.node id).kind ≠ .idle) =
      p.descriptions ids := by
    induction ids with
    | nil => rfl
    | cons id ids ih =>
      by_cases hid : (p.graph.node id).kind = .idle
      · rw [List.filter_cons_of_neg (by simpa using hid), ih]
        simp [descriptions, hid, NodeKind.expected]
      · rw [List.filter_cons_of_pos (by simpa using hid)]
        exact congrArg ((p.graph.node id).kind.expected ++ ·) ih
  exact congrArg List.eraseDups (hidle _)

theorem collect_seen (hseen : id ∈ seen) : p.collect (fuel + 1) (seen, out) id = some (seen, out) := by
  rw [collect, if_pos hseen]

theorem collect_entered (hseen : id ∉ seen) (hid : (p.graph.node id).kind = .idle) :
    p.collect (fuel + 1) (seen, out) id =
      (p.graph.successors id).foldlM (p.collect fuel) (id :: seen, out) := by
  rw [collect, if_neg hseen, if_pos hid]

theorem collect_met (hseen : id ∉ seen) (hid : (p.graph.node id).kind ≠ .idle) :
    p.collect (fuel + 1) (seen, out) id =
      some (id :: seen, addNew out (p.graph.node id).kind.expected) := by
  rw [collect, if_neg hseen, if_neg hid]

/-- What a recursion from some nodes gives: the nodes of a search in depth, and their descriptions. -/
def Gathers (p : Parser Hook) (seen : List Nat) (out : List String) (ids : List Nat)
    (r : List Nat × List String) : Prop :=
  ∃ met, Graph.Visits p.graph.idleSuccessors seen ids met ∧
    r = (met.reverse ++ seen, addNew out (p.descriptions met))

theorem Gathers.nil : p.Gathers seen out [] (seen, out) := ⟨[], .done seen, rfl⟩

theorem Gathers.append {ids ids' : List Nat} {seen' : List Nat} {out' : List String}
    (h : p.Gathers seen out ids (seen', out')) (h' : p.Gathers seen' out' ids' r) :
    p.Gathers seen out (ids ++ ids') r := by
  obtain ⟨met, hmet, heq⟩ := h
  obtain ⟨rfl, rfl⟩ := Prod.mk.inj heq
  obtain ⟨met', hmet', rfl⟩ := h'
  refine ⟨met ++ met', hmet.append hmet', ?_⟩
  rw [List.reverse_append, List.append_assoc, descriptions_append, addNew_append]

theorem gathers_foldlM {search : List Nat × List String → Nat → Option (List Nat × List String)}
    (hsearch : ∀ seen out id r, search (seen, out) id = some r → p.Gathers seen out [id] r)
    (ids : List Nat) (h : ids.foldlM search (seen, out) = some r) : p.Gathers seen out ids r := by
  induction ids generalizing seen out with
  | nil =>
    cases h
    exact .nil
  | cons id ids ih =>
    rw [List.foldlM_cons] at h
    obtain ⟨⟨seen', out'⟩, hfirst, hrest⟩ := Option.bind_eq_some_iff.1 h
    exact (hsearch _ _ _ _ hfirst).append (ih hrest)

theorem gathers_collect (h : p.collect fuel (seen, out) id = some r) : p.Gathers seen out [id] r := by
  induction fuel generalizing seen out id r with
  | zero => cases h
  | succ fuel ih =>
    by_cases hseen : id ∈ seen
    · rw [collect_seen hseen] at h
      cases h
      exact ⟨[], .passed hseen (.done seen), rfl⟩
    · by_cases hid : (p.graph.node id).kind = .idle
      · rw [collect_entered hseen hid] at h
        obtain ⟨met, hmet, rfl⟩ := gathers_foldlM (fun _ _ _ _ => ih) _ h
        have hnext : p.graph.idleSuccessors id = p.graph.successors id := if_pos hid
        refine ⟨id :: met, .entered hseen ?_, by simp [descriptions, hid, NodeKind.expected]⟩
        rwa [hnext, List.append_nil]
      · rw [collect_met hseen hid] at h
        cases h
        have hnext : p.graph.idleSuccessors id = [] := if_neg hid
        refine ⟨[id], .entered hseen ?_, by simp [descriptions]⟩
        rw [hnext]
        exact .done _

theorem exists_foldlM_collect {ids : List Nat}
    (hsearch : ∀ seen out id, p.unseen seen < fuel → ∃ r, p.collect fuel (seen, out) id = some r)
    (hfuel : p.unseen seen < fuel) : ∃ r, ids.foldlM (p.collect fuel) (seen, out) = some r := by
  induction ids generalizing seen out with
  | nil => exact ⟨_, rfl⟩
  | cons id ids ih =>
    obtain ⟨⟨seen', out'⟩, hfirst⟩ := hsearch seen out id hfuel
    obtain ⟨met, -, heq⟩ := gathers_collect hfirst
    have hsub : seen ⊆ seen' := by
      rw [(Prod.mk.inj heq).1]
      exact List.subset_append_right _ _
    rw [List.foldlM_cons, hfirst]
    exact ih (Nat.lt_of_le_of_lt (unseen_le hsub) hfuel)

/-- The recursion comes to its end, as it enters an idle node only once. -/
theorem exists_collect (hfuel : p.unseen seen < fuel) :
    ∃ r, p.collect fuel (seen, out) id = some r := by
  induction fuel generalizing seen out id with
  | zero => omega
  | succ fuel ih =>
    by_cases hseen : id ∈ seen
    · exact ⟨_, collect_seen hseen⟩
    · by_cases hid : (p.graph.node id).kind = .idle
      · rw [collect_entered hseen hid]
        by_cases hsize : id < p.graph.size
        · have hless := unseen_cons_lt (p.graph.mem_idleNodes.2 ⟨hsize, hid⟩) hseen
          exact exists_foldlM_collect (fun _ _ _ => ih) (by omega)
        · rw [p.graph.successors_of_size_le (Nat.le_of_not_lt hsize)]
          exact ⟨_, rfl⟩
      · exact ⟨_, collect_met hseen hid⟩

/-- With nothing met before, the recursion finds what the parser expects, each description once and in the
order of the error. No more idle nodes stand in a row than there are. -/
theorem collect_eq_expected (p : Parser Hook) {fuel : Nat} (hfuel : p.graph.idleCount < fuel)
    (candidates : List Nat) : ∃ seen,
      candidates.foldlM (p.collect fuel) ([], []) = some (seen, p.expected candidates) := by
  have hends : ∃ r, candidates.foldlM (p.collect fuel) ([], []) = some r :=
    exists_foldlM_collect (fun _ _ _ => exists_collect) (Nat.lt_of_le_of_lt unseen_nil_le hfuel)
  obtain ⟨⟨seen, out⟩, hr⟩ := hends
  obtain ⟨met, hmet, heq⟩ := gathers_foldlM (fun _ _ _ _ => gathers_collect) candidates hr
  have hexplore := Graph.visits_explore p.graph.idleSuccessors_sublist candidates
  refine ⟨seen, ?_⟩
  rw [hr, (Prod.mk.inj heq).2, addNew_nil, expected_eq, hmet.unique hexplore]

end Collect

end Parser
end DdlSchema
