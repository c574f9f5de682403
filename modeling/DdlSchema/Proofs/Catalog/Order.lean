import DdlSchema.Catalog.Order

/-! Arranging tables by their foreign keys puts the same tables in another order, whatever the keys
refer to. -/
namespace DdlSchema
namespace Catalog

section Placing

variable {dependencies : Nat → List Nat} {waiting : List Nat}

theorem mem_of_nextPosition {i : Nat} (h : nextPosition dependencies waiting = some i) :
    i ∈ waiting := by
  unfold nextPosition at h
  cases hready : waiting.find? fun i => (dependencies i).all fun j => !waiting.contains j with
  | none =>
    rw [hready] at h
    exact List.mem_of_mem_head? h
  | some j =>
    rw [hready] at h
    obtain rfl : j = i := Option.some.inj h
    exact List.mem_of_find?_eq_some hready

/-- Where some position waits, one is placed next, even if all of them depend on each other. -/
theorem nextPosition_eq_none (h : nextPosition dependencies waiting = none) : waiting = [] := by
  cases waiting with
  | nil => rfl
  | cons i waiting =>
    unfold nextPosition at h
    simp at h

theorem placeAll_perm (dependencies : Nat → List Nat) (waiting : List Nat) :
    (placeAll dependencies waiting.length waiting).Perm waiting := by
  induction hn : waiting.length generalizing waiting with
  | zero =>
    obtain rfl := List.length_eq_zero_iff.1 hn
    exact .nil
  | succ n ih =>
    rw [placeAll]
    cases hnext : nextPosition dependencies waiting with
    | none => rw [nextPosition_eq_none hnext]
    | some i =>
      have hmem := mem_of_nextPosition hnext
      have hlength : (waiting.erase i).length = n := by
        rw [List.length_erase_of_mem hmem]
        omega
      exact ((ih (waiting.erase i) hlength).cons i).trans (List.perm_cons_erase hmem).symm

end Placing

section Arranging

theorem dependencyOrder_perm (tables : List Table) :
    (dependencyOrder tables).Perm (List.range tables.length) := by
  have h := placeAll_perm (fun i => dependencies tables (tables[i]?.getD default))
    (List.range tables.length)
  rwa [List.length_range] at h

theorem filterMap_range_getElem? {α : Type} (as : List α) :
    (List.range as.length).filterMap (as[·]?) = as := by
  induction as with
  | nil => rfl
  | cons a as ih => simpa [List.range_succ_eq_map, List.filterMap_map, Function.comp_def] using ih

/-- Arranging neither drops a table nor repeats one. -/
theorem arrange_perm (independentFirst : Bool) (tables : List Table) :
    (arrange independentFirst tables).Perm tables := by
  have horder : (if independentFirst then dependencyOrder tables
      else (dependencyOrder tables).reverse).Perm (List.range tables.length) := by
    cases independentFirst with
    | true => exact dependencyOrder_perm tables
    | false => exact (List.reverse_perm _).trans (dependencyOrder_perm tables)
  have h := horder.filterMap (tables[·]?)
  rwa [filterMap_range_getElem?] at h

end Arranging

end Catalog
end DdlSchema
