import DdlSchema.Catalog.Explorer
import DdlSchema.Proofs.MapM

/-! Stable sorting by names: what it is, that it leaves no choice, and that it goes along with leaving
items out and with renaming them. The entries of a catalog are sorted in this way. -/
namespace DdlSchema
namespace Catalog

/-- The same items in the order of their keys. Items of one key keep their order. -/
structure SortsStably {α : Type} (key : α → String) (xs ys : List α) : Prop where
  ordered : ys.Pairwise fun a b => key a ≤ key b
  kept : ∀ k, ys.filter (key · == k) = xs.filter (key · == k)

section Sorting

variable {α β : Type} {key : α → String} {xs ys zs : List α}

theorem SortsStably.mem_iff (h : SortsStably key xs ys) {a : α} : a ∈ ys ↔ a ∈ xs := by
  have hmem (l : List α) : a ∈ l ↔ a ∈ l.filter (key · == key a) := by simp
  rw [hmem ys, h.kept, ← hmem]

theorem sortsStably_singleton (key : α → String) (a : α) : SortsStably key [a] [a] :=
  ⟨List.pairwise_singleton _ a, fun _ => rfl⟩

theorem sortsStably_mergeSort (key : α → String) (xs : List α) :
    SortsStably key xs (xs.mergeSort fun a b => decide (key a ≤ key b)) := by
  have htrans (a b c : α) (hab : decide (key a ≤ key b) = true)
      (hbc : decide (key b ≤ key c) = true) : decide (key a ≤ key c) = true := by
    simp only [decide_eq_true_eq] at *
    exact String.le_trans hab hbc
  have htotal (a b : α) : (decide (key a ≤ key b) || decide (key b ≤ key a)) = true := by
    simpa using String.le_total (key a) (key b)
  refine ⟨by simpa using List.pairwise_mergeSort htrans htotal xs, fun k => ?_⟩
  -- The items of one key are in order before sorting, so they stay a part of the sorted list.
  have hpart : (xs.filter (key · == k)).Pairwise fun a b => decide (key a ≤ key b) = true := by
    refine List.pairwise_of_forall_mem_list fun a ha b hb => ?_
    have hab : key a = key b := by
      simp only [List.mem_filter, beq_iff_eq] at ha hb
      rw [ha.2, hb.2]
    simp [hab]
  have hsub := List.sublist_mergeSort htrans htotal hpart List.filter_sublist
  have hlength : (xs.filter (key · == k)).length =
      ((xs.mergeSort fun a b => decide (key a ≤ key b)).filter (key · == k)).length :=
    ((List.mergeSort_perm xs _).filter _).length_eq.symm
  have hfilter := hsub.filter (key · == k)
  rw [List.filter_filter] at hfilter
  simp only [Bool.and_self] at hfilter
  exact (hfilter.eq_of_length hlength).symm

/-- Two lists in order that hold the same items of every key are one. -/
theorem SortsStably.unique (hy : SortsStably key xs ys) (hz : SortsStably key xs zs) : ys = zs := by
  induction ys generalizing xs zs with
  | nil =>
    have hempty : ∀ a, a ∉ zs := fun a ha => List.not_mem_nil (hy.mem_iff.2 (hz.mem_iff.1 ha))
    exact (List.eq_nil_iff_forall_not_mem.2 hempty).symm
  | cons y ys ih =>
    cases zs with
    | nil => exact absurd (hz.mem_iff.2 (hy.mem_iff.1 List.mem_cons_self)) List.not_mem_nil
    | cons z zs =>
      have hkept (k : String) : (y :: ys).filter (key · == k) = (z :: zs).filter (key · == k) := by
        rw [hy.kept, hz.kept]
      obtain ⟨hyle, hyord⟩ := List.pairwise_cons.1 hy.ordered
      obtain ⟨hzle, hzord⟩ := List.pairwise_cons.1 hz.ordered
      have hzy : key y ≤ key z := by
        rcases List.mem_cons.1 (hy.mem_iff.2 (hz.mem_iff.1 List.mem_cons_self)) with rfl | hmem
        · exact String.le_refl _
        · exact hyle z hmem
      have hyz : key z ≤ key y := by
        rcases List.mem_cons.1 (hz.mem_iff.2 (hy.mem_iff.1 List.mem_cons_self)) with rfl | hmem
        · exact String.le_refl _
        · exact hzle y hmem
      have hkey : key z = key y := String.le_antisymm hyz hzy
      have hhead := hkept (key y)
      simp only [List.filter_cons, hkey, BEq.rfl, if_true, List.cons.injEq] at hhead
      obtain ⟨rfl, -⟩ := hhead
      have htail : ys = zs := by
        refine ih ⟨hyord, fun k => rfl⟩ ⟨hzord, fun k => ?_⟩
        have hk := hkept k
        simp only [List.filter_cons] at hk
        split at hk
        · exact (List.cons.inj hk).2.symm
        · exact hk.symm
      rw [htail]

theorem SortsStably.filter (h : SortsStably key xs ys) (p : α → Bool) :
    SortsStably key (xs.filter p) (ys.filter p) where
  ordered := h.ordered.filter p
  kept := by
    intro k
    have hswap (l : List α) : (l.filter p).filter (key · == k) = (l.filter (key · == k)).filter p := by
      simp only [List.filter_filter, Bool.and_comm]
    rw [hswap, h.kept, hswap]

theorem SortsStably.map {key' : β → String} {f : α → β} (h : SortsStably key xs ys)
    (hf : ∀ a ∈ xs, key' (f a) = key a) : SortsStably key' (xs.map f) (ys.map f) where
  ordered := by
    rw [List.pairwise_map]
    refine h.ordered.imp_of_mem fun {a b} ha hb hab => ?_
    rwa [hf a (h.mem_iff.1 ha), hf b (h.mem_iff.1 hb)]
  kept := by
    intro k
    have hcongr {l : List α} (hl : ∀ a ∈ l, a ∈ xs) :
        l.filter (fun a => key' (f a) == k) = l.filter (key · == k) :=
      List.filter_congr fun a ha => by rw [hf a (hl a ha)]
    rw [List.filter_map, List.filter_map]
    simp only [Function.comp_def]
    rw [hcongr fun a => h.mem_iff.1, hcongr fun a => id, h.kept]

/-- Items that can all be read can be read in any order. -/
theorem SortsStably.mapM [Inhabited β] {ε : Type} {key' : β → String} {f : α → Except ε β}
    {us : List β} (h : SortsStably key xs ys) (hf : ∀ a ∈ xs, ∀ b, f a = .ok b → key' b = key a)
    (hus : xs.mapM f = .ok us) : ∃ vs, ys.mapM f = .ok vs ∧ SortsStably key' us vs := by
  let g : α → β := fun a => (f a).toOption.getD default
  have hg : ∀ a ∈ xs, f a = .ok (g a) := by
    intro a ha
    obtain ⟨b, hb⟩ := exists_of_mapM_eq_ok hus a ha
    simp [g, hb, Except.toOption]
  have hmap {l : List α} (hl : ∀ a ∈ l, a ∈ xs) : l.mapM f = .ok (l.map g) := by
    rw [mapM_eq_ok_iff, List.forall₂_map_right_iff, List.forall₂_same]
    exact fun a ha => hg a (hl a ha)
  obtain rfl : xs.map g = us := Except.ok.inj ((hmap fun a => id).symm.trans hus)
  exact ⟨ys.map g, hmap fun a => h.mem_iff.1, h.map fun a ha => hf a ha (g a) (hg a ha)⟩

end Sorting

/-- The entries of one kind that are not internal. -/
def userEntries (kind : ObjectKind) (es : List Entry) : List Entry :=
  es.filter fun e => e.kind == kind && !e.isInternal

theorem exists_entriesOf {c : Catalog} {es : List Entry} (hes : c.entries = .ok es)
    (kind : ObjectKind) :
    ∃ sorted, c.entriesOf kind = .ok sorted ∧ SortsStably Entry.name (userEntries kind es) sorted := by
  refine ⟨_, ?_, sortsStably_mergeSort Entry.name (userEntries kind es)⟩
  rw [entriesOf, hes]
  rfl

theorem entriesOf_eq_error {c : Catalog} {reason : String} (hes : c.entries = .error reason)
    (kind : ObjectKind) : c.entriesOf kind = .error (.catalog reason) := by
  rw [entriesOf, hes]
  rfl

end Catalog
end DdlSchema
