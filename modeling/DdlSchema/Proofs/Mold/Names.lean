import DdlSchema.Mold.Basic
import Mathlib.Data.List.Basic

/-! The molds of a tree by their numbers in pre-order: which of them share a name, and which is a child of
which. -/
namespace DdlSchema
namespace Mold

section Preorder

variable {kind : MoldKind} {name : Option String} {extent : Extent}

mutual

theorem map_outline (depth : Nat) : ∀ m : Mold, (outline depth m).map Prod.snd = m.preorder
  | ⟨kind, name, children, extent⟩ => by
    simp only [preorder, outline, List.map_cons, map_outlineAll (depth + 1) children,
      map_outlineAll 1 children]

theorem map_outlineAll (depth : Nat) : ∀ ms : List Mold,
    (outlineAll depth ms).map Prod.snd = ms.flatMap preorder
  | [] => rfl
  | m :: ms => by
    rw [outlineAll, List.map_append, map_outline depth m, map_outlineAll depth ms,
      List.flatMap_cons]

end

/-- A mold stands before the molds of its children. -/
theorem preorder_mk (children : List Mold) : preorder ⟨kind, name, children, extent⟩ =
    ⟨kind, name, children, extent⟩ :: children.flatMap preorder := by
  rw [preorder, outline, List.map_cons, map_outlineAll]

theorem length_preorder_pos : ∀ m : Mold, 0 < m.preorder.length
  | ⟨_, _, children, _⟩ => by rw [preorder_mk, List.length_cons]; omega

end Preorder

section Links

mutual

/-- The pairs of a mold and its child by their numbers, where that of the first mold is `start`. They
stand in the order in which the forms of the children end. -/
def links (start : Nat) : Mold → List (Nat × Nat)
  | ⟨_, _, children, _⟩ => linksAll start (start + 1) children

def linksAll (parent start : Nat) : List Mold → List (Nat × Nat)
  | [] => []
  | m :: ms => links start m ++ (parent, start) :: linksAll parent (start + m.preorder.length) ms

end

mutual

/-- Every mold but the first is the child of one before it. -/
theorem exists_parent (start q : Nat) : ∀ m : Mold, start < q → q < start + m.preorder.length →
    ∃ p, start ≤ p ∧ p < q ∧ (p, q) ∈ m.links start
  | ⟨_, _, children, _⟩, hlow, hhigh => by
    rw [preorder_mk, List.length_cons] at hhigh
    obtain ⟨p, hp, hpq, hmem⟩ := exists_parent_all start (start + 1) q children (by omega) hlow
      (by omega)
    exact ⟨p, hp, hpq, hmem⟩

theorem exists_parent_all (parent start q : Nat) : ∀ ms : List Mold, parent < start → start ≤ q →
    q < start + (ms.flatMap preorder).length →
    ∃ p, parent ≤ p ∧ p < q ∧ (p, q) ∈ linksAll parent start ms
  | [], _, hlow, hhigh => by
    simp only [List.flatMap_nil, List.length_nil] at hhigh
    omega
  | m :: ms, hparent, hlow, hhigh => by
    rw [List.flatMap_cons, List.length_append] at hhigh
    rw [linksAll]
    by_cases hself : q = start
    · exact ⟨parent, Nat.le_refl _, by omega, by simp [hself]⟩
    · by_cases hinside : q < start + m.preorder.length
      · obtain ⟨p, hp, hpq, hmem⟩ := exists_parent start q m (by omega) hinside
        exact ⟨p, by omega, hpq, List.mem_append_left _ hmem⟩
      · obtain ⟨p, hp, hpq, hmem⟩ := exists_parent_all parent (start + m.preorder.length) q ms
          (by omega) (by omega) (by omega)
        exact ⟨p, hp, hpq, List.mem_append_right _ (List.mem_cons_of_mem _ hmem)⟩

end

end Links

section Names

/-- The number of the first mold with the name of the one numbered `p`, which is `p` without a name. -/
def firstOf (ms : List Mold) (p : Nat) : Nat :=
  match ms[p]?.bind Mold.name with
  | none => p
  | some name => ms.findIdx (·.name == some name)

/-- The numbers of the molds without a name and of the first mold of each name. -/
def founders (ms : List Mold) : List Nat :=
  (List.range ms.length).filter fun p => firstOf ms p = p

/-- The place of a mold among the founders, which is that of the first mold of its name. -/
def nodeOf (ms : List Mold) (p : Nat) : Nat := (founders ms).idxOf (firstOf ms p)

variable {ms : List Mold} {p : Nat} {m : Mold}

theorem firstOf_eq (hm : ms[p]? = some m) :
    firstOf ms p = m.name.elim p fun name => ms.findIdx (·.name == some name) := by
  rw [firstOf, hm, Option.bind_some]
  cases m.name <;> rfl

theorem findIdx_lt_of_name (hm : ms[p]? = some m) {name : String} (hname : m.name = some name) :
    ms.findIdx (·.name == some name) < ms.length :=
  List.findIdx_lt_length.2 ⟨m, List.mem_of_getElem? hm, by simp [hname]⟩

theorem firstOf_append (more : List Mold) (hp : p < ms.length) :
    firstOf (ms ++ more) p = firstOf ms p := by
  have hm : ms[p]? = some ms[p] := List.getElem?_eq_getElem hp
  have hm' : (ms ++ more)[p]? = some ms[p] := by rw [List.getElem?_append_left hp, hm]
  rw [firstOf_eq hm, firstOf_eq hm']
  cases hname : ms[p].name with
  | none => rfl
  | some name =>
    have hfirst := findIdx_lt_of_name hm hname
    simp only [Option.elim, List.findIdx_append, if_pos hfirst]

theorem firstOf_lt (hp : p < ms.length) : firstOf ms p < ms.length := by
  have hm : ms[p]? = some ms[p] := List.getElem?_eq_getElem hp
  rw [firstOf_eq hm]
  cases hname : ms[p].name with
  | none => exact hp
  | some name => exact findIdx_lt_of_name hm hname

theorem mem_founders : p ∈ founders ms ↔ p < ms.length ∧ firstOf ms p = p := by
  simp [founders]

/-- The first mold of a name comes before all of that name. -/
theorem firstOf_findIdx {name : String} (h : ms.findIdx (·.name == some name) < ms.length) :
    firstOf ms (ms.findIdx (·.name == some name)) = ms.findIdx (·.name == some name) := by
  have hname : ms[ms.findIdx (·.name == some name)].name = some name := by
    simpa using List.findIdx_getElem (w := h)
  rw [firstOf_eq (List.getElem?_eq_getElem h), hname, Option.elim]

theorem firstOf_mem_founders (hp : p < ms.length) : firstOf ms p ∈ founders ms := by
  refine mem_founders.2 ⟨firstOf_lt hp, ?_⟩
  have hm : ms[p]? = some ms[p] := List.getElem?_eq_getElem hp
  cases hname : ms[p].name with
  | none =>
    have hself : firstOf ms p = p := by rw [firstOf_eq hm, hname, Option.elim]
    rw [hself, hself]
  | some name =>
    have hfirst : firstOf ms p = ms.findIdx (·.name == some name) := by
      rw [firstOf_eq hm, hname, Option.elim]
    rw [hfirst, firstOf_findIdx (findIdx_lt_of_name hm hname)]

/-- The last mold opens a node unless its name has come before. -/
theorem founders_append_singleton (ms : List Mold) (m : Mold) : founders (ms ++ [m]) =
    founders ms ++ if firstOf (ms ++ [m]) ms.length = ms.length then [ms.length] else [] := by
  have hold : (List.range ms.length).filter (fun p => firstOf (ms ++ [m]) p = p) = founders ms := by
    refine List.filter_congr fun p hp => ?_
    rw [firstOf_append _ (List.mem_range.1 hp)]
  rw [founders, List.length_append, List.length_singleton, List.range_succ, List.filter_append,
    hold]
  by_cases h : firstOf (ms ++ [m]) ms.length = ms.length <;> simp [h]

theorem nodeOf_append_singleton (m : Mold) (hp : p < ms.length) :
    nodeOf (ms ++ [m]) p = nodeOf ms p := by
  rw [nodeOf, firstOf_append _ hp, founders_append_singleton,
    List.idxOf_append_of_mem (firstOf_mem_founders hp), nodeOf]

/-- Molds that follow change no number. -/
theorem nodeOf_append (more : List Mold) (hp : p < ms.length) :
    nodeOf (ms ++ more) p = nodeOf ms p := by
  induction more generalizing ms with
  | nil => rw [List.append_nil]
  | cons m more ih =>
    have hp' : p < (ms ++ [m]).length := by
      rw [List.length_append]
      omega
    rw [List.append_cons, ih hp', nodeOf_append_singleton m hp]

theorem nodup_founders : (founders ms).Nodup := List.nodup_range.filter _

/-- The first mold opens the first node. -/
theorem nodeOf_zero (h : 0 < ms.length) : nodeOf ms 0 = 0 := by
  have hfirst : firstOf ms 0 = 0 := by
    rw [firstOf_eq (List.getElem?_eq_getElem h)]
    cases hname : ms[0].name with
    | none => rfl
    | some name => simpa using List.findIdx_eq h |>.2 (by simp [hname])
  obtain ⟨n, hn⟩ : ∃ n, ms.length = n + 1 := ⟨ms.length - 1, by omega⟩
  rw [nodeOf, hfirst, founders, hn, List.range_succ_eq_map, List.filter_cons_of_pos (by simpa using hfirst),
    List.idxOf_cons_self]

end Names

end Mold
end DdlSchema
