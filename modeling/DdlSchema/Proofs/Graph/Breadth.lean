import DdlSchema.Proofs.Graph.Quotient
import Mathlib.Order.Lattice.Nat

/-! The nodes that the root reaches are listed nearest first. The list is its own table of contents: the root
and then the successors of the listed nodes in their order, each node where it comes up first. -/
namespace DdlSchema
namespace Graph

section Search

variable {next : Nat → List Nat}

/-- In breadth, what is met is what waits and then what follows from it, each node once. -/
theorem exploreFrom_eq_eraseDups {ids : List Nat} (hids : ∀ id ∉ ids, next id = [])
    (fuel : Nat) (waiting seen : List Nat)
    (hfuel : waiting.length + pending next ids seen ≤ fuel) :
    exploreFrom next .breadthFirst fuel waiting seen =
      ((waiting ++ (exploreFrom next .breadthFirst fuel waiting seen).flatMap next).filter
        (· ∉ seen)).eraseDups := by
  induction fuel generalizing waiting seen with
  | zero =>
    have hwaiting : waiting = [] := List.length_eq_zero_iff.1 (by omega)
    subst hwaiting
    rfl
  | succ fuel ih =>
    cases waiting with
    | nil => rfl
    | cons id waiting =>
      rw [List.length_cons] at hfuel
      by_cases hseen : id ∈ seen
      · have hrest := ih waiting seen (by omega)
        simp only [exploreFrom, hseen, if_true, List.cons_append]
        rw [List.filter_cons_of_neg (by simpa using hseen)]
        exact hrest
      · have hvisit := pending_enter hids hseen
        have hrest := ih (waiting ++ next id) (id :: seen) (by
          rw [List.length_append]
          omega)
        simp only [exploreFrom, hseen, if_false, Order.join, List.cons_append, List.flatMap_cons]
        rw [List.filter_cons_of_pos (by simpa using hseen), List.eraseDups_cons, List.filter_filter,
          ← List.append_assoc]
        refine congrArg (id :: ·) (hrest.trans (congrArg List.eraseDups (List.filter_congr ?_)))
        intro x _
        rw [Bool.eq_iff_iff]
        simp [not_or]

end Search

section Lists

/-- Without repetitions, a list keeps the order in which its elements come up first. -/
theorem pairwise_eraseDups (ids : List Nat) :
    ids.eraseDups.Pairwise fun a b => ids.idxOf a < ids.idxOf b := by
  induction ids using List.reverseRecOn with
  | nil => exact .nil
  | append_singleton ids id ih =>
    have hsame {a : Nat} (ha : a ∈ ids.eraseDups) : (ids ++ [id]).idxOf a = ids.idxOf a :=
      List.idxOf_append_of_mem (List.mem_eraseDups.1 ha)
    have hold : ids.eraseDups.Pairwise fun a b => (ids ++ [id]).idxOf a < (ids ++ [id]).idxOf b :=
      ih.imp_of_mem fun ha hb hlt => by rwa [hsame ha, hsame hb]
    rw [eraseDups_append_singleton]
    split
    case isTrue => exact hold
    case isFalse hid =>
      refine List.pairwise_append.2 ⟨hold, List.pairwise_singleton _ _, fun a ha b hb => ?_⟩
      obtain rfl := List.mem_singleton.1 hb
      rw [hsame ha, List.idxOf_append_of_notMem hid, List.idxOf_cons_self, Nat.add_zero]
      exact List.idxOf_lt_length_of_mem (List.mem_eraseDups.1 ha)

end Lists

variable {Hook : Type} {g : Graph Hook}

section Found

/-- The number of the first of some nodes that leads to a node. -/
def foundAt (g : Graph Hook) (ids : List Nat) (id : Nat) : Nat :=
  ids.findIdx fun s => id ∈ g.successors s

/-- Whether some nodes lead to `a` before they lead to `b`: the first one that leads to `a` stands before
the first one that leads to `b`, or both are one node, with `a` before `b` among its successors. -/
def FindsBefore (g : Graph Hook) (ids : List Nat) (a b : Nat) : Prop :=
  g.foundAt ids a < g.foundAt ids b ∨ g.foundAt ids a = g.foundAt ids b ∧
    ∃ s, ids[g.foundAt ids a]? = some s ∧ (g.successors s).idxOf a < (g.successors s).idxOf b

theorem FindsBefore.foundAt_le {ids : List Nat} {a b : Nat} (h : g.FindsBefore ids a b) :
    g.foundAt ids a ≤ g.foundAt ids b := by
  rcases h with h | ⟨h, -⟩ <;> omega

theorem foundAt_cons (s : Nat) (ids : List Nat) (id : Nat) : g.foundAt (s :: ids) id =
    if id ∈ g.successors s then 0 else g.foundAt ids id + 1 := by
  simp [foundAt, List.findIdx_cons, cond_eq_ite]

theorem FindsBefore.cons {s : Nat} {ids : List Nat} {a b : Nat} (ha : a ∉ g.successors s)
    (hb : b ∉ g.successors s) (h : g.FindsBefore ids a b) : g.FindsBefore (s :: ids) a b := by
  rw [FindsBefore, foundAt_cons, foundAt_cons, if_neg ha, if_neg hb]
  rcases h with h | ⟨h, parent, hparent, hlt⟩
  · exact .inl (by omega)
  · exact .inr ⟨by omega, parent, by rwa [List.getElem?_cons_succ], hlt⟩

/-- What comes up earlier among all successors is found earlier. -/
theorem findsBefore_of_idxOf_lt {ids : List Nat} {a b : Nat}
    (h : (ids.flatMap g.successors).idxOf a < (ids.flatMap g.successors).idxOf b) :
    g.FindsBefore ids a b := by
  induction ids with
  | nil => simp at h
  | cons s ids ih =>
    rw [List.flatMap_cons] at h
    by_cases ha : a ∈ g.successors s
    · by_cases hb : b ∈ g.successors s
      · rw [List.idxOf_append_of_mem ha, List.idxOf_append_of_mem hb] at h
        refine .inr ⟨?_, s, ?_, h⟩
        · rw [foundAt_cons, foundAt_cons, if_pos ha, if_pos hb]
        · rw [foundAt_cons, if_pos ha, List.getElem?_cons_zero]
      · refine .inl ?_
        rw [foundAt_cons, foundAt_cons, if_pos ha, if_neg hb]
        omega
    · by_cases hb : b ∈ g.successors s
      · have hfirst := List.idxOf_lt_length_of_mem hb
        rw [List.idxOf_append_of_notMem ha, List.idxOf_append_of_mem hb] at h
        omega
      · rw [List.idxOf_append_of_notMem ha, List.idxOf_append_of_notMem hb] at h
        exact (ih (by omega)).cons ha hb

/-- The nodes that lead to a node have a first one. -/
theorem exists_of_mem_flatMap {ids : List Nat} {id : Nat} (h : id ∈ ids.flatMap g.successors) :
    ∃ s, ids[g.foundAt ids id]? = some s ∧ id ∈ g.successors s := by
  have hlt : g.foundAt ids id < ids.length := by
    obtain ⟨s, hs, hid⟩ := List.mem_flatMap.1 h
    exact List.findIdx_lt_length.2 ⟨s, hs, by simpa using hid⟩
  refine ⟨_, List.getElem?_eq_getElem hlt, ?_⟩
  exact of_decide_eq_true (List.findIdx_getElem (w := hlt))

end Found

section Distance

/-- Whether so many edges lead from the root to a node. -/
inductive Walk (g : Graph Hook) : Nat → Nat → Prop
  | root : Walk g 0 g.root
  | step {n a b : Nat} (ha : Walk g n a) (hb : b ∈ g.successors a) : Walk g (n + 1) b

/-- The fewest edges that lead from the root to a node. -/
noncomputable def distance (g : Graph Hook) (id : Nat) : Nat := sInf {n | g.Walk n id}

theorem exists_walk_iff {id : Nat} : (∃ n, g.Walk n id) ↔
    Relation.ReflTransGen (fun a b => b ∈ g.successors a) g.root id := by
  constructor
  · rintro ⟨n, hwalk⟩
    induction hwalk with
    | root => exact .refl
    | step _ hb ih => exact ih.tail hb
  · intro hreach
    induction hreach with
    | refl => exact ⟨0, .root⟩
    | tail _ hb ih =>
      obtain ⟨n, hwalk⟩ := ih
      exact ⟨n + 1, hwalk.step hb⟩

theorem Walk.distance_le {n id : Nat} (h : g.Walk n id) : g.distance id ≤ n := Nat.sInf_le h

theorem Walk.distance {n id : Nat} (h : g.Walk n id) : g.Walk (g.distance id) id :=
  Nat.sInf_mem (s := {n | g.Walk n id}) ⟨n, h⟩

theorem eq_root_of_walk {id : Nat} (h : g.Walk 0 id) : id = g.root := by cases h; rfl

@[simp] theorem distance_root (g : Graph Hook) : g.distance g.root = 0 :=
  Nat.le_zero.1 Walk.root.distance_le

end Distance

section Reachable

theorem reachable_eq_eraseDups (hg : 0 < g.size) :
    g.reachable = (g.root :: g.reachable.flatMap g.successors).eraseDups := by
  have hnodes : g.nodes.isEmpty = false := by
    simpa using List.ne_nil_of_length_pos hg
  have hnone : ∀ id ∉ List.range g.size, g.successors id = [] := by
    intro id hid
    exact successors_of_size_le g (by simpa using hid)
  have hfuel : [g.root].length + pending g.successors (List.range g.size) [] ≤
      [g.root].length + g.edgeCount := by rw [pending_nil, edgeCount_eq]
  have heq := exploreFrom_eq_eraseDups hnone _ [g.root] [] hfuel
  rw [reachable, hnodes]
  simpa [explore] using heq

theorem nodup_reachable (hg : 0 < g.size) : g.reachable.Nodup := by
  rw [reachable_eq_eraseDups hg]
  exact nodup_eraseDups _

theorem head?_reachable (hg : 0 < g.size) : g.reachable.head? = some g.root := by
  rw [reachable_eq_eraseDups hg, List.eraseDups_cons, List.head?_cons]

/-- Nodes stand in the order in which the listed nodes find them. -/
theorem pairwise_findsBefore (hg : 0 < g.size) : g.reachable.Pairwise fun a b =>
    b ≠ g.root ∧ (a ≠ g.root → g.FindsBefore g.reachable a b) := by
  have horder := pairwise_eraseDups (g.root :: g.reachable.flatMap g.successors)
  rw [← reachable_eq_eraseDups hg] at horder
  refine horder.imp fun {a b} hlt => ?_
  have hb : b ≠ g.root := by
    rintro rfl
    rw [List.idxOf_cons_self] at hlt
    omega
  refine ⟨hb, fun ha => findsBefore_of_idxOf_lt ?_⟩
  rw [List.idxOf_cons_ne _ (Ne.symm ha), List.idxOf_cons_ne _ (Ne.symm hb)] at hlt
  omega

theorem exists_parent (hg : 0 < g.size) {id : Nat} (hid : id ∈ g.reachable) (hroot : id ≠ g.root) :
    ∃ s, g.reachable[g.foundAt g.reachable id]? = some s ∧ id ∈ g.successors s := by
  rw [reachable_eq_eraseDups hg, List.mem_eraseDups] at hid
  exact exists_of_mem_flatMap ((List.mem_cons.1 hid).resolve_left hroot)

theorem findsBefore_of_lt (hg : 0 < g.size) {i j a b : Nat} (ha : g.reachable[i]? = some a)
    (hb : g.reachable[j]? = some b) (hij : i < j) :
    b ≠ g.root ∧ (a ≠ g.root → g.FindsBefore g.reachable a b) := by
  obtain ⟨hi, rfl⟩ := List.getElem?_eq_some_iff.1 ha
  obtain ⟨hj, rfl⟩ := List.getElem?_eq_some_iff.1 hb
  exact List.pairwise_iff_getElem.1 (pairwise_findsBefore hg) i j hi hj hij

theorem foundAt_le {ids : List Nat} {k s id : Nat} (hs : ids[k]? = some s)
    (hid : id ∈ g.successors s) : g.foundAt ids id ≤ k := by
  obtain ⟨hk, rfl⟩ := List.getElem?_eq_some_iff.1 hs
  refine Nat.le_of_not_lt fun hlt => ?_
  exact of_decide_eq_false (List.not_of_lt_findIdx hlt) hid

/-- What stands before a node is no farther from the root. The last edge of a walk to the node comes from a
listed node, and what stands before the node was found from there or from farther in front. -/
theorem exists_walk_of_le (hg : 0 < g.size) {n c : Nat} (hwalk : g.Walk n c) {i j a : Nat}
    (ha : g.reachable[i]? = some a) (hc : g.reachable[j]? = some c) (hij : i ≤ j) :
    ∃ m ≤ n, g.Walk m a := by
  induction hwalk generalizing i j a with
  | root =>
    rcases Nat.lt_or_eq_of_le hij with hlt | rfl
    · exact absurd rfl (findsBefore_of_lt hg ha hc hlt).1
    · obtain rfl := Option.some.inj (ha.symm.trans hc)
      exact ⟨0, Nat.le_refl 0, .root⟩
  | @step n s c hs hedge ih =>
    by_cases hroot : a = g.root
    · exact ⟨0, Nat.zero_le _, hroot ▸ .root⟩
    · obtain ⟨parent, hparent, ha'⟩ := exists_parent hg (List.mem_of_getElem? ha) hroot
      obtain ⟨k, hk⟩ := List.getElem?_of_mem ((mem_reachable hg).2 (exists_walk_iff.1 ⟨n, hs⟩))
      have hfound : g.foundAt g.reachable a ≤ g.foundAt g.reachable c := by
        rcases Nat.lt_or_eq_of_le hij with hlt | rfl
        · exact ((findsBefore_of_lt hg ha hc hlt).2 hroot).foundAt_le
        · rw [Option.some.inj (ha.symm.trans hc)]
      obtain ⟨m, hm, hwalk⟩ := ih hparent hk (Nat.le_trans hfound (foundAt_le hk hedge))
      exact ⟨m + 1, by omega, hwalk.step ha'⟩

theorem distance_le_of_le (hg : 0 < g.size) {i j a b : Nat} (ha : g.reachable[i]? = some a)
    (hb : g.reachable[j]? = some b) (hij : i ≤ j) : g.distance a ≤ g.distance b := by
  obtain ⟨n, hn⟩ := exists_walk_iff.2 ((mem_reachable hg).1 (List.mem_of_getElem? hb))
  obtain ⟨m, hm, hwalk⟩ := exists_walk_of_le hg hn.distance ha hb hij
  exact Nat.le_trans hwalk.distance_le hm

/-- The list of the nodes that the root reaches holds them all, each once, and begins with the root. A node
stands behind no node that is farther from the root; of two that are as far, first stands the one that a
listed node leads to earlier: the first to have it as a successor stands before the first to have the other
one, or they are one node, which has it before the other one. -/
theorem reachable_is_breadthFirst (g : Graph Hook) (hg : 0 < g.size) :
    (∀ id, id ∈ g.reachable ↔ ∃ n, g.Walk n id) ∧ g.reachable.Nodup ∧
    g.reachable.head? = some g.root ∧
    g.reachable.Pairwise fun a b => g.distance a ≤ g.distance b ∧
      (g.distance a = g.distance b → g.FindsBefore g.reachable a b) := by
  refine ⟨fun id => (mem_reachable hg).trans exists_walk_iff.symm, nodup_reachable hg,
    head?_reachable hg, List.pairwise_iff_getElem.2 fun i j hi hj hij => ?_⟩
  have ha := List.getElem?_eq_getElem hi
  have hb := List.getElem?_eq_getElem hj
  obtain ⟨hroot, hfinds⟩ := findsBefore_of_lt hg ha hb hij
  refine ⟨distance_le_of_le hg ha hb (by omega), fun hdistance => hfinds fun haroot => hroot ?_⟩
  -- Only the root is as near as the root.
  obtain ⟨n, hn⟩ := exists_walk_iff.2 ((mem_reachable hg).1 (List.mem_of_getElem? hb))
  rw [haroot, distance_root] at hdistance
  exact eq_root_of_walk (hdistance ▸ hn.distance)

/-- The nodes 1 and 2 are as far from the root, and both lead to 3; the last node is not reached. -/
def crossing : Graph Empty :=
  ⟨[⟨.idle, none, none, [2, 1]⟩, ⟨.identifier, none, none, [3, 0]⟩, ⟨.integer, none, none, [4, 3]⟩,
    ⟨.finish, none, none, []⟩, ⟨.string, none, none, [2]⟩, ⟨.idle, none, none, [0]⟩], 0⟩

theorem reachable_is_breadthFirst_crossing : 0 < crossing.size ∧
    crossing.reachable = [0, 2, 1, 4, 3] ∧ crossing.reachable.head? = some crossing.root ∧
    (∃ n, crossing.Walk n 3) ∧ (¬∃ n, crossing.Walk n 5) ∧
    crossing.reachable.Pairwise fun a b => crossing.distance a ≤ crossing.distance b ∧
      (crossing.distance a = crossing.distance b → crossing.FindsBefore crossing.reachable a b) := by
  have hsize : 0 < crossing.size := by decide
  have hlist : crossing.reachable = [0, 2, 1, 4, 3] := by decide
  obtain ⟨hmem, -, hhead, horder⟩ := reachable_is_breadthFirst crossing hsize
  refine ⟨hsize, hlist, hhead, (hmem 3).1 (by simp [hlist]), fun h => ?_, horder⟩
  simpa [hlist] using (hmem 5).2 h

end Reachable

end Graph
end DdlSchema
