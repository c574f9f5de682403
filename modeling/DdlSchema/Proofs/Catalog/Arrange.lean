import DdlSchema.Proofs.Catalog.Order
import Mathlib.Data.Fintype.EquivFin
import Mathlib.Data.Fintype.Sets
import Mathlib.Data.Set.Finite.List
import Mathlib.Logic.Relation
import Mathlib.Order.WellFounded

/-! What the order of the tables says: where the foreign keys form no cycle, every table stands behind
those that it refers to, and of all such orders the one is taken that keeps nearest to the given one.
Arranging twice is arranging once, cycles or not. -/
namespace DdlSchema
namespace Catalog

section Placing

variable {dependencies : Nat → List Nat} {waiting : List Nat}

/-- Nothing that `i` depends on waits for its place. -/
def Ready (dependencies : Nat → List Nat) (waiting : List Nat) (i : Nat) : Prop :=
  ∀ j ∈ dependencies i, j ∉ waiting

instance (i : Nat) : Decidable (Ready dependencies waiting i) :=
  inferInstanceAs (Decidable (∀ j ∈ dependencies i, j ∉ waiting))

theorem nextPosition_eq (dependencies : Nat → List Nat) (waiting : List Nat) :
    nextPosition dependencies waiting =
      ((waiting.find? fun i => Ready dependencies waiting i) <|> waiting.head?) := by
  have hready : (fun i => (dependencies i).all fun j => !waiting.contains j) =
      fun i => decide (Ready dependencies waiting i) := by
    funext i
    rw [Bool.eq_iff_iff, decide_eq_true_iff]
    simp [Ready]
  rw [nextPosition, hready]

/-- The next position is ready, unless none that waits is. -/
theorem ready_of_nextPosition {i : Nat} (h : nextPosition dependencies waiting = some i) :
    Ready dependencies waiting i ∨ ∀ j ∈ waiting, ¬Ready dependencies waiting j := by
  rw [nextPosition_eq] at h
  cases hfind : waiting.find? fun i => Ready dependencies waiting i with
  | none => exact .inr fun j hj => by simpa using List.find?_eq_none.1 hfind j hj
  | some j =>
    rw [hfind] at h
    obtain rfl : j = i := Option.some.inj h
    exact .inl (by simpa using List.find?_some hfind)

theorem nextPosition_cons {i : Nat} (h : Ready dependencies (i :: waiting) i ∨
    ∀ j ∈ i :: waiting, ¬Ready dependencies (i :: waiting) j) :
    nextPosition dependencies (i :: waiting) = some i := by
  rw [nextPosition_eq]
  rcases h with h | h
  · rw [List.find?_cons_of_pos (by simpa using h)]
    rfl
  · rw [List.find?_eq_none.2 (by simpa using h)]
    rfl

/-- Of the positions that are ready the first one is next. -/
theorem nextPosition_le (hsorted : waiting.Pairwise (· < ·)) {i j : Nat}
    (h : nextPosition dependencies waiting = some i) (hj : j ∈ waiting)
    (hready : Ready dependencies waiting j) : i ≤ j := by
  rw [nextPosition_eq] at h
  cases hfind : waiting.find? fun i => Ready dependencies waiting i with
  | none => exact absurd hready (by simpa using List.find?_eq_none.1 hfind j hj)
  | some k =>
    rw [hfind] at h
    obtain rfl : k = i := Option.some.inj h
    obtain ⟨-, before, behind, rfl, hbefore⟩ := List.find?_eq_some_iff_append.1 hfind
    rcases List.mem_append.1 hj with hj | hj
    · exact absurd hready (by simpa using hbefore j hj)
    · rcases List.mem_cons.1 hj with rfl | hj
      · exact Nat.le_refl _
      · exact Nat.le_of_lt ((List.pairwise_cons.1 (List.pairwise_append.1 hsorted).2.1).1 j hj)

/-- Where something is always ready, nothing is placed before what it depends on. -/
theorem placeAll_pairwise (dependencies : Nat → List Nat) (waiting : List Nat)
    (hready : ∀ is ⊆ waiting, is ≠ [] → ∃ i ∈ is, Ready dependencies is i) :
    (placeAll dependencies waiting.length waiting).Pairwise fun i j => j ∉ dependencies i := by
  induction hn : waiting.length generalizing waiting with
  | zero => exact .nil
  | succ n ih =>
    rw [placeAll]
    cases hnext : nextPosition dependencies waiting with
    | none => exact .nil
    | some i =>
      have hmem := mem_of_nextPosition hnext
      have hi : Ready dependencies waiting i := by
        obtain ⟨j, hj, hj'⟩ := hready waiting (fun _ hj => hj) (List.ne_nil_of_mem hmem)
        exact (ready_of_nextPosition hnext).resolve_right fun h => h j hj hj'
      have hlength : (waiting.erase i).length = n := by
        rw [List.length_erase_of_mem hmem]
        omega
      have hrest := ih (waiting.erase i)
        (fun is his => hready is fun j hj => List.erase_subset (his hj)) hlength
      have hperm := placeAll_perm dependencies (waiting.erase i)
      rw [hlength] at hperm
      refine .cons (fun j hj hdependency => ?_) hrest
      exact hi j hdependency (List.erase_subset (hperm.mem_iff.1 hj))

/-- No other order that respects the dependencies is less. -/
theorem placeAll_least (dependencies : Nat → List Nat) {order : List Nat}
    (hself : ∀ i, i ∉ dependencies i) (hsorted : waiting.Pairwise (· < ·)) (hperm : order.Perm waiting)
    (horder : order.Pairwise fun i j => j ∉ dependencies i) :
    ¬List.Lex (· < ·) order (placeAll dependencies waiting.length waiting) := by
  induction order generalizing waiting with
  | nil =>
    rw [List.nil_perm.1 hperm]
    nofun
  | cons j order ih =>
    obtain ⟨hj, hpairwise⟩ := List.pairwise_cons.1 horder
    have hmem : j ∈ waiting := hperm.mem_iff.1 List.mem_cons_self
    -- All that `j` depends on stands before it in that order, so `j` could be next as well.
    have hready : Ready dependencies waiting j := by
      intro k hk hwaiting
      rcases List.mem_cons.1 (hperm.mem_iff.2 hwaiting) with rfl | hrest
      · exact hself k hk
      · exact hj k hrest hk
    rw [← hperm.length_eq, List.length_cons, placeAll]
    cases hnext : nextPosition dependencies waiting with
    | none => exact absurd hmem (by simp [nextPosition_eq_none hnext])
    | some i =>
      have hle := nextPosition_le hsorted hnext hmem hready
      intro hless
      cases hless with
      | rel hlt => exact absurd hlt (Nat.not_lt.2 hle)
      | cons hless =>
        have hrest : order.Perm (waiting.erase j) := by simpa using hperm.erase j
        have hnot := ih (hsorted.sublist List.erase_sublist) hrest hpairwise
        rw [← hrest.length_eq] at hnot
        exact hnot hless

/-- Positions numbered anew in the order of their places keep these places. -/
theorem placeAll_range' {dependencies' : Nat → List Nat} {place : Nat → Nat} {start n : Nat}
    (hdependencies : ∀ p ∈ List.range' start n, ∀ q ∈ List.range' start n,
      q ∈ dependencies' p ↔ place q ∈ dependencies (place p))
    (hperm : waiting.Perm ((List.range' start n).map place))
    (hplaced : placeAll dependencies n waiting = (List.range' start n).map place) :
    placeAll dependencies' n (List.range' start n) = List.range' start n := by
  induction n generalizing waiting start with
  | zero => rfl
  | succ n ih =>
    have hready : ∀ p ∈ List.range' start (n + 1),
        Ready dependencies' (List.range' start (n + 1)) p ↔ Ready dependencies waiting (place p) := by
      intro p hp
      refine ⟨fun h j hj hwaiting => ?_, fun h q hq hrange => ?_⟩
      · obtain ⟨q, hq, rfl⟩ := List.mem_map.1 (hperm.mem_iff.1 hwaiting)
        exact h q ((hdependencies p hp q hq).2 hj) hq
      · exact h (place q) ((hdependencies p hp q hrange).1 hq)
          (hperm.mem_iff.2 (List.mem_map_of_mem hrange))
    simp only [List.range'_succ, List.map_cons, placeAll] at hplaced hperm hready hdependencies ⊢
    cases hnext : nextPosition dependencies waiting with
    | none => simp [hnext] at hplaced
    | some i =>
      rw [hnext] at hplaced
      obtain ⟨rfl, hplaced⟩ := List.cons.inj hplaced
      have hfirst : nextPosition dependencies' (start :: List.range' (start + 1) n) = some start := by
        refine nextPosition_cons ?_
        rcases ready_of_nextPosition hnext with h | h
        · exact .inl ((hready start List.mem_cons_self).2 h)
        · exact .inr fun p hp hp' => h (place p) (hperm.mem_iff.2 (List.mem_map_of_mem hp))
            ((hready p hp).1 hp')
      have hrest := ih (fun p hp q hq => hdependencies p (List.mem_cons_of_mem start hp) q
        (List.mem_cons_of_mem start hq)) (by simpa using hperm.erase (place start)) hplaced
      simp only [hfirst, List.erase_cons_head, hrest]

end Placing

section References

/-- The table at position `i` refers to the one at `j` by a name that is not its own. -/
def DependsOn (tables : List Table) (i j : Nat) : Prop :=
  ∃ t ∈ tables[i]?, ∃ u ∈ tables[j]?, u.name ≠ t.name ∧ ∃ k ∈ t.foreignKeys, k.table = u.name

/-- Every table stands behind those that it refers to. -/
def IsOrdered (tables : List Table) : Prop := ∀ i j, DependsOn tables i j → j < i

variable {tables : List Table}

theorem not_dependsOn_self (i : Nat) : ¬DependsOn tables i i := by
  rintro ⟨t, ht, u, hu, hne, -⟩
  obtain rfl : t = u := Option.some.inj (ht.symm.trans hu)
  exact hne rfl

/-- The positions that the one of a table depends on. -/
def dependenciesAt (tables : List Table) (i : Nat) : List Nat :=
  dependencies tables (tables[i]?.getD default)

theorem mem_dependenciesAt {i j : Nat} : j ∈ dependenciesAt tables i ↔ DependsOn tables i j := by
  unfold dependenciesAt
  cases hi : tables[i]? with
  | none =>
    have hnone : dependencies tables default = [] := rfl
    simp [DependsOn, hi, hnone]
  | some t =>
    simp only [DependsOn, dependencies, Table.referenced, hi, Option.getD_some, List.mem_flatMap,
      List.mem_filter, List.mem_eraseDups, List.mem_map, List.mem_range]
    constructor
    · rintro ⟨name, ⟨⟨k, hk, rfl⟩, hne⟩, -, hany⟩
      cases hj : tables[j]? with
      | none => simp [hj] at hany
      | some u =>
        have hname : u.name = k.table := by simpa [hj] using hany
        exact ⟨t, rfl, u, rfl, by simpa [hname] using hne, k, hk, hname.symm⟩
    · rintro ⟨_, ⟨⟩, u, hu, hne, k, hk, hname⟩
      have hj : j < tables.length := (List.getElem?_eq_some_iff.1 hu).1
      refine ⟨u.name, ⟨⟨k, hk, hname⟩, by simpa using hne⟩, hj, ?_⟩
      rw [Option.mem_def.1 hu]
      simp

theorem not_ready_iff {i : Nat} {is : List Nat} :
    ¬Ready (dependenciesAt tables) is i ↔ ∃ j ∈ is, DependsOn tables i j := by
  simp only [Ready, mem_dependenciesAt]
  push Not
  exact exists_congr fun j => and_comm

/-- Where each of finitely many things leads to another of them, all of them lead to a cycle. -/
theorem exists_cycle {α : Type} {r : α → α → Prop} {as : List α} (hnext : ∀ a ∈ as, ∃ b ∈ as, r a b)
    {a : α} (ha : a ∈ as) :
    ∃ b ∈ as, Relation.ReflTransGen r a b ∧ Relation.TransGen r b b := by
  by_contra hnone
  let Behind (b c : { b // b ∈ as }) : Prop :=
    Relation.ReflTransGen r a c.1 ∧ Relation.TransGen r c.1 b.1
  have htrans : IsTrans _ Behind := ⟨fun _ _ _ hbc hcd => ⟨hcd.1, hcd.2.trans hbc.2⟩⟩
  have hirrefl : Std.Irrefl Behind := ⟨fun b hb => hnone ⟨b.1, b.2, hb⟩⟩
  have hfinite : Finite { b // b ∈ as } := as.finite_toSet
  obtain ⟨b, hb, hlast⟩ := (Finite.wellFounded_of_trans_of_irrefl Behind).has_min
    { b | Relation.ReflTransGen r a b.1 } ⟨⟨a, ha⟩, .refl⟩
  obtain ⟨c, hc, hbc⟩ := hnext b.1 b.2
  exact hlast ⟨c, hc⟩ (hb.tail hbc) ⟨hb, .single hbc⟩

/-- Without a cycle, something that waits depends on nothing that waits. -/
theorem exists_ready (hacyclic : ∀ i, ¬Relation.TransGen (DependsOn tables) i i) {is : List Nat}
    (hne : is ≠ []) : ∃ i ∈ is, Ready (dependenciesAt tables) is i := by
  by_contra! hnone
  have hnext : ∀ i ∈ is, ∃ j ∈ is, DependsOn tables i j :=
    fun i hi => not_ready_iff.1 (hnone i hi)
  obtain ⟨i, -, -, hloop⟩ := exists_cycle hnext (List.head_mem hne)
  exact hacyclic i hloop

theorem getElem?_arranged {order : List Nat} (horder : ∀ i ∈ order, i < tables.length) (p : Nat) :
    (order.filterMap (tables[·]?))[p]? = order[p]?.bind (tables[·]?) := by
  induction order generalizing p with
  | nil => rfl
  | cons i order ih =>
    obtain ⟨hi, horder⟩ := List.forall_mem_cons.1 horder
    rw [List.filterMap_cons_some (List.getElem?_eq_getElem hi)]
    cases p with
    | zero => simp [hi]
    | succ p => simpa using ih horder p

theorem dependsOn_arranged {order : List Nat} (horder : ∀ i ∈ order, i < tables.length) {p q : Nat} :
    DependsOn (order.filterMap (tables[·]?)) p q ↔
      ∃ i ∈ order[p]?, ∃ j ∈ order[q]?, DependsOn tables i j := by
  simp only [DependsOn, getElem?_arranged horder, Option.mem_def, Option.bind_eq_some_iff]
  constructor
  · rintro ⟨t, ⟨i, hi, ht⟩, u, ⟨j, hj, hu⟩, h⟩
    exact ⟨i, hi, j, hj, t, ht, u, hu, h⟩
  · rintro ⟨i, hi, j, hj, t, ht, u, hu, h⟩
    exact ⟨t, ⟨i, hi, ht⟩, u, ⟨j, hj, hu⟩, h⟩

/-- An order of the positions puts every table behind those it refers to iff it respects the
dependencies. -/
theorem isOrdered_arranged {order : List Nat} (horder : ∀ i ∈ order, i < tables.length) :
    IsOrdered (order.filterMap (tables[·]?)) ↔
      order.Pairwise fun i j => ¬DependsOn tables i j := by
  rw [List.pairwise_iff_getElem]
  constructor
  · intro h p q hp hq hpq hdepends
    have hqp := h p q ((dependsOn_arranged horder).2 ⟨_, List.getElem?_eq_getElem hp, _,
      List.getElem?_eq_getElem hq, hdepends⟩)
    omega
  · intro h p q hdepends
    obtain ⟨i, hi, j, hj, hdepends⟩ := (dependsOn_arranged horder).1 hdepends
    obtain ⟨hp, rfl⟩ := List.getElem?_eq_some_iff.1 hi
    obtain ⟨hq, rfl⟩ := List.getElem?_eq_some_iff.1 hj
    refine Nat.lt_of_not_le fun hpq => ?_
    rcases Nat.lt_or_eq_of_le hpq with hlt | rfl
    · exact h p q hp hq hlt hdepends
    · exact not_dependsOn_self _ hdepends

end References

section Arranging

variable (tables : List Table)

theorem lt_length_of_mem_dependencyOrder {i : Nat} (h : i ∈ dependencyOrder tables) :
    i < tables.length :=
  List.mem_range.1 ((dependencyOrder_perm tables).mem_iff.1 h)

theorem arrange_true : arrange true tables = (dependencyOrder tables).filterMap (tables[·]?) := rfl

theorem arrange_false : arrange false tables = (arrange true tables).reverse :=
  List.filterMap_reverse

/-- Tables in the order of their references keep their places. -/
theorem dependencyOrder_arrange :
    dependencyOrder (arrange true tables) = List.range (arrange true tables).length := by
  have hlength : (dependencyOrder tables).length = tables.length := by
    simpa using (dependencyOrder_perm tables).length_eq
  have harrange : (arrange true tables).length = tables.length :=
    (arrange_perm true tables).length_eq
  have hplace : dependencyOrder tables = (List.range' 0 tables.length).map
      fun p => ((dependencyOrder tables)[p]?).getD 0 := by
    apply List.ext_getElem
    · simpa using hlength
    · intro p hp _
      simp [List.getElem?_eq_getElem hp]
  have hperm := (dependencyOrder_perm tables).symm
  have hplaced : placeAll (dependenciesAt tables) tables.length (List.range tables.length) =
      dependencyOrder tables := rfl
  rw [hplace] at hplaced hperm
  have hagain : placeAll (dependenciesAt (arrange true tables)) tables.length
      (List.range' 0 tables.length) = List.range' 0 tables.length := by
    refine placeAll_range' (fun p hp q hq => ?_) hperm hplaced
    have hp : p < (dependencyOrder tables).length := by simpa [hlength] using hp
    have hq : q < (dependencyOrder tables).length := by simpa [hlength] using hq
    rw [mem_dependenciesAt, mem_dependenciesAt, arrange_true,
      dependsOn_arranged fun _ => lt_length_of_mem_dependencyOrder tables]
    simp [List.getElem?_eq_getElem hp, List.getElem?_eq_getElem hq]
  rw [← harrange, ← List.range_eq_range'] at hagain
  exact hagain

theorem dependencyOrder_pairwise (hacyclic : ∀ i, ¬Relation.TransGen (DependsOn tables) i i) :
    (dependencyOrder tables).Pairwise fun i j => ¬DependsOn tables i j := by
  have h := placeAll_pairwise (dependenciesAt tables) (List.range tables.length)
    fun is _ hne => exists_ready hacyclic hne
  rw [List.length_range] at h
  exact h.imp fun hij hdepends => hij (mem_dependenciesAt.2 hdepends)

theorem dependencyOrder_least {order : List Nat} (hperm : order.Perm (List.range tables.length))
    (horder : order.Pairwise fun i j => ¬DependsOn tables i j) :
    ¬List.Lex (· < ·) order (dependencyOrder tables) := by
  have h := placeAll_least (dependenciesAt tables)
    (fun i hi => not_dependsOn_self i (mem_dependenciesAt.1 hi)) List.pairwise_lt_range hperm
    (horder.imp fun hij hdependency => hij (mem_dependenciesAt.1 hdependency))
  rw [List.length_range] at h
  exact h

/-- Arranging tables loses none of them, and arranging them again changes nothing. Where no table
refers to itself through others, each stands behind those it refers to, and of all orders of the
given positions with that property the one taken is the lexicographically least. -/
theorem arrange_isOrdered_least :
    (arrange true tables).Perm tables ∧ arrange false tables = (arrange true tables).reverse ∧
    arrange true (arrange true tables) = arrange true tables ∧
    ((∀ i, ¬Relation.TransGen (DependsOn tables) i i) →
      IsOrdered (arrange true tables) ∧
      arrange true tables = (dependencyOrder tables).filterMap (tables[·]?) ∧
      (dependencyOrder tables).Perm (List.range tables.length) ∧
      ∀ order : List Nat, order.Perm (List.range tables.length) →
        IsOrdered (order.filterMap (tables[·]?)) →
          ¬List.Lex (· < ·) order (dependencyOrder tables)) := by
  refine ⟨arrange_perm true tables, arrange_false tables, ?_, fun hacyclic =>
    ⟨?_, arrange_true tables, dependencyOrder_perm tables, fun order hperm hordered => ?_⟩⟩
  · rw [arrange_true (arrange true tables), dependencyOrder_arrange, filterMap_range_getElem?]
  · rw [arrange_true, isOrdered_arranged fun _ => lt_length_of_mem_dependencyOrder tables]
    exact dependencyOrder_pairwise tables hacyclic
  · have hrange : ∀ i ∈ order, i < tables.length := fun i hi =>
      List.mem_range.1 (hperm.mem_iff.1 hi)
    exact dependencyOrder_least tables hperm ((isOrdered_arranged hrange).1 hordered)

/-- Two tables of one name, of which one refers to itself, with a table that refers to both. -/
def twoOrders : List Table :=
  [{ name := "lines", foreignKeys := [{ table := "orders" }] },
    { name := "orders", foreignKeys := [{ table := "orders" }, { table := "customers" }] },
    { name := "customers" }, { name := "orders" }]

theorem twoOrders_acyclic (i : Nat) : ¬Relation.TransGen (DependsOn twoOrders) i i := by
  let rank (i : Nat) : Nat := ([2, 1, 0, 0] : List Nat)[i]?.getD 0
  have hedge : ∀ i j, DependsOn twoOrders i j → rank j < rank i := by
    intro i j h
    rw [← mem_dependenciesAt] at h
    match i with
    | 0 | 1 | 2 | 3 => revert j; decide
    | i + 4 => cases h
  have hpath : ∀ i j, Relation.TransGen (DependsOn twoOrders) i j → rank j < rank i := by
    intro i j h
    induction h with
    | single h => exact hedge _ _ h
    | tail _ h ih => exact (hedge _ _ h).trans ih
  exact fun h => Nat.lt_irrefl _ (hpath i i h)

theorem arrange_isOrdered_least_twoOrders :
    (∀ i, ¬Relation.TransGen (DependsOn twoOrders) i i) ∧ IsOrdered (arrange true twoOrders) ∧
      dependencyOrder twoOrders = [2, 1, 3, 0] ∧
      ∀ order : List Nat, order.Perm [0, 1, 2, 3] →
        IsOrdered (order.filterMap (twoOrders[·]?)) → ¬List.Lex (· < ·) order [2, 1, 3, 0] := by
  have horder : dependencyOrder twoOrders = [2, 1, 3, 0] := by decide
  obtain ⟨-, -, -, h⟩ := arrange_isOrdered_least twoOrders
  obtain ⟨hordered, -, -, hleast⟩ := h twoOrders_acyclic
  rw [horder] at hleast
  exact ⟨twoOrders_acyclic, hordered, horder, hleast⟩

end Arranging

end Catalog
end DdlSchema
