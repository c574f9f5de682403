import DdlSchema.Graph.Explore
import Mathlib.Logic.Relation

/-! What an exploration meets: the nodes that its starts reach, and no others. One visit for every start
and for every edge is enough on any graph, with cycles or without. -/
namespace DdlSchema
namespace Graph

theorem nodup_eraseDups {α : Type} [DecidableEq α] (xs : List α) : xs.eraseDups.Nodup := by
  induction hlength : xs.length using Nat.strongRecOn generalizing xs with
  | ind length ih =>
    cases xs with
    | nil => exact List.nodup_nil
    | cons x xs =>
      have hshorter := List.length_filter_le (fun y => !y == x) xs
      rw [List.length_cons] at hlength
      rw [List.eraseDups_cons]
      refine List.nodup_cons.2 ⟨?_, ih _ (by omega) _ rfl⟩
      simp [List.mem_eraseDups]

theorem eraseDups_append_singleton {α : Type} [DecidableEq α] (xs : List α) (x : α) :
    (xs ++ [x]).eraseDups = if x ∈ xs then xs.eraseDups else xs.eraseDups ++ [x] := by
  rw [List.eraseDups_append]
  by_cases h : x ∈ xs <;> simp [h, List.removeAll, List.eraseDups_cons]

section Search

variable {next : Nat → List Nat}

/-- The edges that leave those of some nodes which have not been seen. -/
def pending (next : Nat → List Nat) (ids seen : List Nat) : Nat :=
  ((ids.filter fun id => id ∉ seen).flatMap next).length

theorem pending_cons (id : Nat) (ids seen : List Nat) :
    pending next (id :: ids) seen =
      (if id ∈ seen then 0 else (next id).length) + pending next ids seen := by
  by_cases h : id ∈ seen <;> simp [pending, h]

theorem pending_nil (ids : List Nat) : pending next ids [] = (ids.flatMap next).length := by
  rw [pending, List.filter_eq_self.2 (by simp)]

theorem pending_seen_le (id : Nat) (ids seen : List Nat) :
    pending next ids (id :: seen) ≤ pending next ids seen := by
  induction ids with
  | nil => exact Nat.le_refl _
  | cons a ids ih =>
    rw [pending_cons, pending_cons]
    by_cases ha : a ∈ seen
    · simpa [ha] using ih
    · by_cases hid : a = id
      · simp only [hid, List.mem_cons, true_or, if_true]
        omega
      · simpa [ha, hid] using ih

/-- A new node pays for the visits that its edges ask for. -/
theorem pending_visit {id : Nat} {ids seen : List Nat} (hseen : id ∉ seen) (hid : id ∈ ids) :
    (next id).length + pending next ids (id :: seen) ≤ pending next ids seen := by
  induction ids with
  | nil => cases hid
  | cons a ids ih =>
    rw [pending_cons, pending_cons]
    by_cases ha : a = id
    · subst ha
      have hrest : pending next ids (a :: seen) ≤ pending next ids seen := pending_seen_le a ids seen
      simp only [List.mem_cons, true_or, if_true, hseen, if_false]
      omega
    · have hrest := ih ((List.mem_cons.1 hid).resolve_left (Ne.symm ha))
      simp only [List.mem_cons, ha, false_or]
      omega

/-- A node without edges costs nothing, so any new node pays. -/
theorem pending_enter {ids : List Nat} (hids : ∀ id ∉ ids, next id = []) {id : Nat} {seen : List Nat}
    (hseen : id ∉ seen) : (next id).length + pending next ids (id :: seen) ≤ pending next ids seen := by
  by_cases hid : id ∈ ids
  · exact pending_visit hseen hid
  · simpa [hids id hid] using pending_seen_le id ids seen

/-- What waits is met, and what is met is closed under the edges, up to what has been seen before. -/
theorem exploreFrom_closed {ids : List Nat} (hids : ∀ id ∉ ids, next id = []) (order : Order)
    (fuel : Nat) (waiting seen : List Nat)
    (hfuel : waiting.length + pending next ids seen ≤ fuel) :
    (∀ x ∈ waiting, x ∈ seen ∨ x ∈ exploreFrom next order fuel waiting seen) ∧
      ∀ x ∈ exploreFrom next order fuel waiting seen, ∀ y ∈ next x,
        y ∈ seen ∨ y ∈ exploreFrom next order fuel waiting seen := by
  induction fuel generalizing waiting seen with
  | zero =>
    have hwaiting : waiting = [] := List.length_eq_zero_iff.1 (by omega)
    subst hwaiting
    exact ⟨by simp, by simp [exploreFrom]⟩
  | succ fuel ih =>
    cases waiting with
    | nil => exact ⟨by simp, by simp [exploreFrom]⟩
    | cons id waiting =>
      simp only [exploreFrom]
      rw [List.length_cons] at hfuel
      by_cases hseen : id ∈ seen
      · obtain ⟨hwaiting, hclosed⟩ := ih waiting seen (by omega)
        simp only [hseen, if_true]
        refine ⟨fun x hx => ?_, hclosed⟩
        rcases List.mem_cons.1 hx with rfl | hx
        · exact .inl hseen
        · exact hwaiting x hx
      · have hvisit := pending_enter hids hseen
        have hjoin : (order.join (next id) waiting).length = (next id).length + waiting.length := by
          cases order <;> simp [Order.join, Nat.add_comm]
        obtain ⟨hwaiting, hclosed⟩ := ih (order.join (next id) waiting) (id :: seen) (by omega)
        simp only [hseen, if_false]
        -- A node that counts as seen from here on is old or the one just met.
        have hmet {x : Nat} {met : List Nat} (hx : x ∈ id :: seen ∨ x ∈ met) :
            x ∈ seen ∨ x ∈ id :: met := by
          rcases hx with hx | hx
          · rcases List.mem_cons.1 hx with rfl | hx
            · exact .inr List.mem_cons_self
            · exact .inl hx
          · exact .inr (List.mem_cons_of_mem id hx)
        refine ⟨fun x hx => ?_, fun x hx y hy => ?_⟩
        · rcases List.mem_cons.1 hx with rfl | hx
          · exact .inr List.mem_cons_self
          · exact hmet (hwaiting x (Order.mem_join.2 (.inr hx)))
        · rcases List.mem_cons.1 hx with rfl | hx
          · exact hmet (hwaiting y (Order.mem_join.2 (.inl hy)))
          · exact hmet (hclosed x hx y hy)

theorem exists_start_of_mem_exploreFrom {order : Order} {fuel : Nat} {waiting seen : List Nat}
    {x : Nat} (hx : x ∈ exploreFrom next order fuel waiting seen) :
    ∃ s ∈ waiting, Relation.ReflTransGen (fun a b => b ∈ next a) s x := by
  induction fuel generalizing waiting seen with
  | zero => simp [exploreFrom] at hx
  | succ fuel ih =>
    cases waiting with
    | nil => simp [exploreFrom] at hx
    | cons id waiting =>
      simp only [exploreFrom] at hx
      split at hx
      · obtain ⟨s, hs, hreach⟩ := ih hx
        exact ⟨s, List.mem_cons_of_mem id hs, hreach⟩
      · rcases List.mem_cons.1 hx with rfl | hx
        · exact ⟨x, List.mem_cons_self, .refl⟩
        · obtain ⟨s, hs, hreach⟩ := ih hx
          rcases Order.mem_join.1 hs with hs | hs
          · exact ⟨id, List.mem_cons_self, hreach.head hs⟩
          · exact ⟨s, List.mem_cons_of_mem id hs, hreach⟩

theorem mem_exploreFrom_iff (ids : List Nat) (hids : ∀ id ∉ ids, next id = []) {order : Order}
    {fuel : Nat} {starts : List Nat} (hfuel : starts.length + (ids.flatMap next).length ≤ fuel)
    {x : Nat} : x ∈ exploreFrom next order fuel starts [] ↔
      ∃ s ∈ starts, Relation.ReflTransGen (fun a b => b ∈ next a) s x := by
  refine ⟨exists_start_of_mem_exploreFrom, ?_⟩
  rintro ⟨s, hs, hreach⟩
  obtain ⟨hstarts, hclosed⟩ := exploreFrom_closed hids order fuel starts []
    (by rwa [pending_nil])
  induction hreach with
  | refl => simpa using hstarts s hs
  | tail _ hedge ih => simpa using hclosed _ ih _ hedge

end Search

section Graph

variable {Hook : Type} (g : Graph Hook)

theorem nodes_eq_map_node : g.nodes = (List.range g.size).map g.node := by
  apply List.ext_getElem
  · simp [size]
  · intro i hi _
    simp [node, List.getElem?_eq_getElem hi]

/-- The number of idle nodes. -/
def idleCount : Nat := g.nodes.countP fun node => node.kind = .idle

/-- The numbers of the idle nodes. -/
def idleNodes : List Nat := (List.range g.size).filter fun id => (g.node id).kind = .idle

theorem idleCount_eq : g.idleCount = g.idleNodes.length := by
  rw [idleCount, nodes_eq_map_node, List.countP_map, List.countP_eq_length_filter]
  rfl

theorem mem_idleNodes {id : Nat} :
    id ∈ g.idleNodes ↔ id < g.size ∧ (g.node id).kind = .idle := by simp [idleNodes]

theorem node_of_size_le {id : Nat} (h : g.size ≤ id) : g.node id = default := by
  rw [node, List.getElem?_eq_none h, Option.getD_none]

theorem successors_of_size_le {id : Nat} (h : g.size ≤ id) : g.successors id = [] := by
  rw [successors, node_of_size_le g h]
  rfl

theorem lt_size_of_mem_successors {id s : Nat} (h : s ∈ g.successors id) : id < g.size := by
  refine Nat.lt_of_not_le fun hid => ?_
  rw [successors_of_size_le g hid] at h
  cases h

theorem edgeCount_eq : g.edgeCount = ((List.range g.size).flatMap g.successors).length := by
  rw [edgeCount, nodes_eq_map_node, List.flatMap_map]
  rfl

section Explore

variable {g} {next : Nat → List Nat} (hnext : ∀ id, (next id).Sublist (g.successors id))

include hnext

theorem eq_nil_of_not_mem_range : ∀ id ∉ List.range g.size, next id = [] := by
  intro id hid
  rw [List.eq_nil_iff_forall_not_mem]
  intro s hs
  exact hid (List.mem_range.2 (g.lt_size_of_mem_successors ((hnext id).subset hs)))

/-- Every graph has edges enough for those that an exploration follows. -/
theorem length_flatMap_le : ((List.range g.size).flatMap next).length ≤ g.edgeCount := by
  rw [edgeCount_eq]
  induction List.range g.size with
  | nil => exact Nat.le_refl 0
  | cons id ids ih =>
    have hid := (hnext id).length_le
    simp only [List.flatMap_cons, List.length_append]
    omega

theorem mem_explore {order : Order} {starts : List Nat} {x : Nat} :
    x ∈ g.explore next order starts ↔
      ∃ s ∈ starts, Relation.ReflTransGen (fun a b => b ∈ next a) s x :=
  mem_exploreFrom_iff (List.range g.size) (eq_nil_of_not_mem_range hnext)
    (Nat.add_le_add_left (length_flatMap_le hnext) _)

end Explore

theorem idleSuccessors_sublist (id : Nat) : (g.idleSuccessors id).Sublist (g.successors id) := by
  unfold idleSuccessors
  split
  · exact List.Sublist.refl _
  · exact List.nil_sublist _

theorem mem_idleSuccessors {id s : Nat} :
    s ∈ g.idleSuccessors id ↔ (g.node id).kind = .idle ∧ s ∈ g.successors id := by
  by_cases h : (g.node id).kind = .idle <;> simp [idleSuccessors, h]

/-- Behind some nodes stand those that are not idle and that idle nodes lead to. -/
theorem mem_frontier {starts : List Nat} {x : Nat} : x ∈ g.frontier starts ↔
    (∃ s ∈ starts, Relation.ReflTransGen (fun a b => b ∈ g.idleSuccessors a) s x) ∧
      (g.node x).kind ≠ .idle := by
  simp [frontier, mem_explore g.idleSuccessors_sublist]

theorem mem_reachable {g : Graph Hook} (hg : 0 < g.size) {id : Nat} :
    id ∈ g.reachable ↔ Relation.ReflTransGen (fun a b => b ∈ g.successors a) g.root id := by
  have hnodes : g.nodes ≠ [] := List.ne_nil_of_length_pos hg
  simp [reachable, hnodes, mem_explore fun id => List.Sublist.refl (g.successors id)]

end Graph

end Graph
end DdlSchema
