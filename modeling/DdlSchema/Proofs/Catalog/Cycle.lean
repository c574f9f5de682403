import DdlSchema.Proofs.Catalog.Arrange

/-! What becomes of references that form cycles. A table stands before one that it refers to only where
none of those still waiting could be placed: it then leads to a cycle and is the first of them, but it
need not stand on a cycle itself. -/
namespace DdlSchema
namespace Catalog

open Relation (ReflTransGen TransGen)

section Placing

variable {dependencies : Nat → List Nat} {waiting : List Nat}

theorem ready_congr {is js : List Nat} (h : ∀ j, j ∈ is ↔ j ∈ js) (i : Nat) :
    Ready dependencies is i ↔ Ready dependencies js i := by
  simp only [Ready, h]

/-- Where nothing that waits is ready, the first that waits is next. -/
theorem nextPosition_eq_head? (h : ∀ j ∈ waiting, ¬Ready dependencies waiting j) :
    nextPosition dependencies waiting = waiting.head? := by
  rw [nextPosition_eq, List.find?_eq_none.2 (by simpa using h)]
  rfl

theorem placeAll_eq_cons {i : Nat} {behind : List Nat}
    (h : placeAll dependencies waiting.length waiting = i :: behind) :
    nextPosition dependencies waiting = some i ∧
      behind = placeAll dependencies (waiting.erase i).length (waiting.erase i) := by
  cases waiting with
  | nil => cases h
  | cons k waiting =>
    rw [List.length_cons, placeAll] at h
    cases hnext : nextPosition dependencies (k :: waiting) with
    | none =>
      rw [hnext] at h
      cases h
    | some j =>
      rw [hnext] at h
      obtain ⟨rfl, rfl⟩ := List.cons.inj h
      rw [List.length_erase_of_mem (mem_of_nextPosition hnext)]
      exact ⟨rfl, rfl⟩

/-- A position is placed behind all that it depends on, unless nothing that waits is ready. Then it is
the first that waits. -/
theorem placeAll_eq_append (hsorted : waiting.Pairwise (· < ·)) {before behind : List Nat} {i : Nat}
    (h : placeAll dependencies waiting.length waiting = before ++ i :: behind) :
    Ready dependencies (i :: behind) i ∨
      (∀ j ∈ i :: behind, ¬Ready dependencies (i :: behind) j) ∧ ∀ j ∈ behind, i < j := by
  induction before generalizing waiting with
  | nil =>
    obtain ⟨hnext, -⟩ := placeAll_eq_cons h
    have hmem : ∀ j, j ∈ i :: behind ↔ j ∈ waiting := by
      intro j
      have hperm := placeAll_perm dependencies waiting
      rw [h] at hperm
      exact hperm.mem_iff
    rcases ready_of_nextPosition hnext with hready | hnone
    · exact .inl ((ready_congr hmem i).2 hready)
    · refine .inr ⟨fun j hj hready => hnone j ((hmem j).1 hj) ((ready_congr hmem j).1 hready), ?_⟩
      rw [nextPosition_eq_head? hnone] at hnext
      obtain ⟨more, rfl⟩ := List.head?_eq_some_iff.1 hnext
      intro j hj
      have hperm := placeAll_perm dependencies (i :: more)
      rw [h] at hperm
      exact (List.pairwise_cons.1 hsorted).1 j (hperm.cons_inv.mem_iff.1 hj)
  | cons k before ih =>
    obtain ⟨-, hrest⟩ := placeAll_eq_cons h
    exact ih (hsorted.sublist List.erase_sublist) hrest.symm

end Placing

section Arranging

variable {tables : List Table}

theorem lt_length_of_dependsOn {i j : Nat} (h : DependsOn tables i j) :
    i < tables.length ∧ j < tables.length := by
  obtain ⟨t, ht, u, hu, _⟩ := h
  exact ⟨(List.getElem?_eq_some_iff.1 ht).1, (List.getElem?_eq_some_iff.1 hu).1⟩

/-- A table stands behind all that it refers to, unless each table from it on refers to another of
these. Then it is the first of them in the given order and leads to a cycle among them. -/
theorem dependencyOrder_eq_append {before behind : List Nat} {i : Nat}
    (h : dependencyOrder tables = before ++ i :: behind) :
    (∀ j, DependsOn tables i j → j ∈ before) ∨
      (∀ j ∈ i :: behind, ∃ k ∈ i :: behind, DependsOn tables j k) ∧ (∀ j ∈ behind, i < j) ∧
        ∃ k ∈ i :: behind, ReflTransGen (DependsOn tables) i k ∧ TransGen (DependsOn tables) k k := by
  have hplaced : placeAll (dependenciesAt tables) (List.range tables.length).length
      (List.range tables.length) = before ++ i :: behind := by
    rw [List.length_range]
    exact h
  rcases placeAll_eq_append List.pairwise_lt_range hplaced with hready | ⟨hnone, hfirst⟩
  · refine .inl fun j hj => ?_
    have hmem : j ∈ before ++ i :: behind := by
      rw [← h, (dependencyOrder_perm tables).mem_iff, List.mem_range]
      exact (lt_length_of_dependsOn hj).2
    exact (List.mem_append.1 hmem).resolve_right (hready j (mem_dependenciesAt.2 hj))
  · have hnext : ∀ j ∈ i :: behind, ∃ k ∈ i :: behind, DependsOn tables j k :=
      fun j hj => not_ready_iff.1 (hnone j hj)
    exact .inr ⟨hnext, hfirst, exists_cycle hnext List.mem_cons_self⟩

theorem dependencyOrder_nodup (tables : List Table) : (dependencyOrder tables).Nodup :=
  (dependencyOrder_perm tables).nodup_iff.2 List.nodup_range

/-- The tables that lead to no cycle stand behind all that they refer to. -/
theorem idxOf_lt_of_dependsOn {i j : Nat} (h : DependsOn tables i j)
    (hcycle : ∀ k, ReflTransGen (DependsOn tables) i k → ¬TransGen (DependsOn tables) k k) :
    (dependencyOrder tables).idxOf j < (dependencyOrder tables).idxOf i := by
  have hmem : i ∈ dependencyOrder tables :=
    (dependencyOrder_perm tables).mem_iff.2 (List.mem_range.2 (lt_length_of_dependsOn h).1)
  obtain ⟨before, behind, horder⟩ := List.append_of_mem hmem
  have hbefore : i ∉ before := by
    have hnodup := dependencyOrder_nodup tables
    rw [horder] at hnodup
    exact fun hi => (List.nodup_append.1 hnodup).2.2 i hi i List.mem_cons_self rfl
  rcases dependencyOrder_eq_append horder with hplaced | ⟨-, -, k, -, hreach, hloop⟩
  · have hj := hplaced j h
    rw [horder, List.idxOf_append_of_mem hj, List.idxOf_append_of_notMem hbefore,
      List.idxOf_cons_self]
    exact List.idxOf_lt_length_iff.2 hj
  · exact absurd hloop (hcycle k hreach)

/-- Arranging tables puts each behind those that it refers to, unless it leads to a cycle. One that
stands before a table it refers to is the first, in the given order, of all that stand there or
behind it, and each of these refers to another of them. -/
theorem arrange_breaks_cycles_at_first (tables : List Table) :
    arrange true tables = (dependencyOrder tables).filterMap (tables[·]?) ∧
    (dependencyOrder tables).Perm (List.range tables.length) ∧
    (∀ i j, DependsOn tables i j →
      (∀ k, ReflTransGen (DependsOn tables) i k → ¬TransGen (DependsOn tables) k k) →
        (dependencyOrder tables).idxOf j < (dependencyOrder tables).idxOf i) ∧
    ∀ before i behind, dependencyOrder tables = before ++ i :: behind →
      ∀ j ∈ behind, DependsOn tables i j →
        (∀ k ∈ behind, i < k) ∧ ∀ k ∈ i :: behind, ∃ l ∈ i :: behind, DependsOn tables k l := by
  refine ⟨arrange_true tables, dependencyOrder_perm tables, fun i j h => idxOf_lt_of_dependsOn h,
    fun before i behind horder j hj hdepends => ?_⟩
  rcases dependencyOrder_eq_append horder with hplaced | ⟨hnext, hfirst, -⟩
  · have hnodup := dependencyOrder_nodup tables
    rw [horder] at hnodup
    exact absurd rfl ((List.nodup_append.1 hnodup).2.2 j (hplaced j hdepends) j
      (List.mem_cons_of_mem i hj))
  · exact ⟨hfirst, hnext⟩

/-- A table that refers to two others, which refer to each other. -/
def behindCycle : List Table :=
  [{ name := "c", foreignKeys := [{ table := "a" }, { table := "b" }] },
    { name := "a", foreignKeys := [{ table := "b" }] },
    { name := "b", foreignKeys := [{ table := "a" }] }]

theorem dependsOn_behindCycle {i j : Nat} (h : DependsOn behindCycle i j) :
    (i, j) ∈ [(0, 1), (0, 2), (1, 2), (2, 1)] := by
  rw [← mem_dependenciesAt] at h
  match i with
  | 0 | 1 | 2 => revert j; decide
  | i + 3 => cases h

/-- The table that refers to the cycle comes first, though it stands on no cycle itself. -/
theorem arrange_behindCycle :
    (behindCycle.map (·.name)).Nodup ∧ DependsOn behindCycle 0 1 ∧
      ¬TransGen (DependsOn behindCycle) 1 0 ∧
      (arrange true behindCycle).map (·.name) = ["c", "a", "b"] := by
  refine ⟨by decide, ?_, fun h => ?_, by decide⟩
  · rw [← mem_dependenciesAt]
    decide
  · obtain ⟨i, -, hi⟩ := TransGen.tail'_iff.1 h
    have hmem := dependsOn_behindCycle hi
    simp at hmem

/-- Two more tables, which lead to no cycle. -/
def besideCycle : List Table :=
  behindCycle ++ [{ name := "e", foreignKeys := [{ table := "d" }] }, { name := "d" }]

theorem not_transGen_besideCycle {k : Nat} (h : ReflTransGen (DependsOn besideCycle) 3 k) :
    ¬TransGen (DependsOn besideCycle) k k := by
  have hlast : ∀ l, ¬DependsOn besideCycle 4 l := by
    intro l hl
    rw [← mem_dependenciesAt] at hl
    revert l
    decide
  have honly : ∀ l, DependsOn besideCycle 3 l → l = 4 := by
    intro l hl
    rw [← mem_dependenciesAt] at hl
    revert l
    decide
  intro hloop
  obtain ⟨l, hl, hrest⟩ := TransGen.head'_iff.1 hloop
  rcases ReflTransGen.cases_head h with rfl | ⟨m, hm, hreach⟩
  · obtain rfl := honly l hl
    rcases ReflTransGen.cases_head hrest with heq | ⟨m, hm, -⟩
    · cases heq
    · exact hlast m hm
  · obtain rfl := honly m hm
    rcases ReflTransGen.cases_head hreach with rfl | ⟨n, hn, -⟩
    · exact hlast l hl
    · exact hlast n hn

theorem arrange_breaks_cycles_at_first_besideCycle :
    dependencyOrder besideCycle = [4, 3, 0, 1, 2] ∧ DependsOn besideCycle 3 4 ∧
      (dependencyOrder besideCycle).idxOf 4 < (dependencyOrder besideCycle).idxOf 3 ∧
      DependsOn besideCycle 0 1 ∧ (∀ k ∈ [1, 2], 0 < k) ∧
      ∀ k ∈ [0, 1, 2], ∃ l ∈ [0, 1, 2], DependsOn besideCycle k l := by
  have horder : dependencyOrder besideCycle = [4, 3, 0, 1, 2] := by decide
  have hdepends : DependsOn besideCycle 3 4 ∧ DependsOn besideCycle 0 1 := by
    simp only [← mem_dependenciesAt]
    decide
  obtain ⟨-, -, hkept, hbroken⟩ := arrange_breaks_cycles_at_first besideCycle
  obtain ⟨hfirst, hnext⟩ := hbroken [4, 3] 0 [1, 2] horder 1 (by decide) hdepends.2
  exact ⟨horder, hdepends.1, hkept 3 4 hdepends.1 fun k => not_transGen_besideCycle, hdepends.2,
    hfirst, hnext⟩

end Arranging

end Catalog
end DdlSchema
