import DdlSchema.Graph.Wire
import DdlSchema.Proofs.Graph.Explore
import Mathlib.Data.List.Perm.Subperm

/-! Wiring gives the node of each name in a table its hook, and changes nothing else. It stops at the first
name whose hook finds no place; the hooks before it stay. -/
namespace DdlSchema
namespace Graph

variable {Hook : Type} {g g' : Graph Hook}

section Names

theorem lt_size_of_name {id : Nat} {name : String} (h : (g.node id).name = some name) :
    id < g.size := by
  refine Nat.lt_of_not_le fun hid => ?_
  rw [node_of_size_le g hid] at h
  cases h

theorem mem_named {id : Nat} {name : String} : id ∈ g.named name ↔ (g.node id).name = some name := by
  simpa [named] using lt_size_of_name

theorem nodup_named (name : String) : (g.named name).Nodup := List.nodup_range.filter _

/-- Whether a node, and no other one, has a name. -/
def IsOnly (g : Graph Hook) (id : Nat) (name : String) : Prop :=
  ∀ other, (g.node other).name = some name ↔ other = id

theorem isOnly_of_named {id : Nat} {name : String} (h : g.named name = [id]) : g.IsOnly id name := by
  intro other
  rw [← mem_named, h, List.mem_singleton]

theorem IsOnly.name_eq {id : Nat} {name : String} (h : g.IsOnly id name) :
    (g.node id).name = some name := (h id).2 rfl

theorem IsOnly.name_unique {id : Nat} {name name' : String} (h : g.IsOnly id name)
    (h' : g.IsOnly id name') : name = name' := Option.some.inj (h.name_eq.symm.trans h'.name_eq)

theorem IsOnly.unique {id id' : Nat} {name : String} (h : g.IsOnly id name) (h' : g.IsOnly id' name) :
    id = id' := (h' id).1 h.name_eq

end Names

section SetHook

variable {id : Nat} {hook : Hook}

theorem node_setHook (hid : id < g.size) (other : Nat) : (g.setHook id hook).node other =
    if other = id then { g.node other with hook := some hook } else g.node other := by
  rw [node, setHook, List.getElem?_modify]
  by_cases hother : other = id
  · subst hother
    simp [node, List.getElem?_eq_getElem hid]
  · simp [node, hother, Ne.symm hother]

theorem name_setHook (hid : id < g.size) (other : Nat) :
    ((g.setHook id hook).node other).name = (g.node other).name := by
  rw [node_setHook hid]
  split <;> rfl

theorem isOnly_setHook (hid : id < g.size) {other : Nat} {name : String} :
    (g.setHook id hook).IsOnly other name ↔ g.IsOnly other name := by
  simp only [IsOnly, name_setHook hid]

end SetHook

section Tables

/-- Whether all hooks of a table find a place: no name occurs twice, and each is that of one node only,
which has no hook. -/
structure HasRoomFor (g : Graph Hook) (table : List (String × Hook)) : Prop where
  nodup : (table.map Prod.fst).Nodup
  free : ∀ pair ∈ table, ∃ id, g.IsOnly id pair.1 ∧ (g.node id).hook = none

/-- A graph with the hooks of a table, and else the one it was. -/
structure Hooked (g : Graph Hook) (table : List (String × Hook)) (g' : Graph Hook) : Prop where
  root_eq : g'.root = g.root
  size_eq : g'.size = g.size
  hooked : ∀ pair ∈ table, ∀ id, (g.node id).name = some pair.1 →
    g'.node id = { g.node id with hook := some pair.2 }
  kept : ∀ id, (∀ pair ∈ table, (g.node id).name ≠ some pair.1) → g'.node id = g.node id

/-- Why a name gets no hook behind some pairs of a table: no node has it, several have it, or its node has
a hook already, from before or by one of those pairs. -/
inductive Refuses (g : Graph Hook) (before : List (String × Hook)) (name : String) : WiringError → Prop
  | missing (h : ∀ id, (g.node id).name ≠ some name) : Refuses g before name (.missingNode name)
  | ambiguous {ids : List Nat} (hids : ∀ id, id ∈ ids ↔ (g.node id).name = some name)
      (hnodup : ids.Nodup) (hcount : 2 ≤ ids.length) :
      Refuses g before name (.ambiguousNode name ids.length)
  | duplicate {id : Nat} (hid : g.IsOnly id name)
      (h : (g.node id).hook ≠ none ∨ name ∈ before.map Prod.fst) :
      Refuses g before name (.duplicateHook name)

variable {id : Nat} {name : String} {hook : Hook} {table : List (String × Hook)}

/-- The first hook takes its place, and the others must find theirs behind it. -/
theorem hasRoomFor_cons (hid : g.IsOnly id name) : g.HasRoomFor ((name, hook) :: table) ↔
    (g.node id).hook = none ∧ (g.setHook id hook).HasRoomFor table := by
  have hlt := lt_size_of_name hid.name_eq
  constructor
  · rintro ⟨hnodup, hfree⟩
    obtain ⟨hnew, hnodup⟩ := List.nodup_cons.1 hnodup
    refine ⟨?_, hnodup, fun pair hpair => ?_⟩
    · obtain ⟨id', hid', hnone⟩ := hfree _ List.mem_cons_self
      rwa [hid.unique hid']
    · obtain ⟨id', hid', hnone⟩ := hfree pair (List.mem_cons_of_mem _ hpair)
      have hne : id' ≠ id := by
        rintro rfl
        exact hnew (List.mem_map.2 ⟨pair, hpair, hid'.name_unique hid⟩)
      refine ⟨id', (isOnly_setHook hlt).2 hid', ?_⟩
      rw [node_setHook hlt, if_neg hne, hnone]
  · rintro ⟨hnone, hnodup, hfree⟩
    have hother {id' : Nat} (h : ((g.setHook id hook).node id').hook = none) :
        id' ≠ id ∧ (g.node id').hook = none := by
      rw [node_setHook hlt] at h
      split at h
      · cases h
      · exact ⟨‹_›, h⟩
    refine ⟨List.nodup_cons.2 ⟨fun hmem => ?_, hnodup⟩, fun pair hpair => ?_⟩
    · obtain ⟨pair, hpair, rfl⟩ := List.mem_map.1 hmem
      obtain ⟨id', hid', hfreed⟩ := hfree pair hpair
      exact (hother hfreed).1 (((isOnly_setHook hlt).1 hid').unique hid)
    · rcases List.mem_cons.1 hpair with rfl | hpair
      · exact ⟨id, hid, hnone⟩
      · obtain ⟨id', hid', hfreed⟩ := hfree pair hpair
        exact ⟨id', (isOnly_setHook hlt).1 hid', (hother hfreed).2⟩

theorem hooked_nil (g : Graph Hook) : g.Hooked [] g where
  root_eq := rfl
  size_eq := rfl
  hooked := nofun
  kept _ _ := rfl

/-- Hooks that are given after the first one leave it as it is. -/
theorem Hooked.cons (hid : g.IsOnly id name) (hnew : name ∉ table.map Prod.fst)
    (h : (g.setHook id hook).Hooked table g') : g.Hooked ((name, hook) :: table) g' := by
  have hlt := lt_size_of_name hid.name_eq
  refine ⟨h.root_eq, h.size_eq.trans (size_setHook g id hook), fun pair hpair a ha => ?_,
    fun a ha => ?_⟩
  · rcases List.mem_cons.1 hpair with rfl | hpair
    · obtain rfl := (hid a).1 ha
      rw [h.kept a fun pair hpair => ?_, node_setHook hlt, if_pos rfl]
      rw [name_setHook hlt, ha]
      exact fun hsame => hnew (List.mem_map.2 ⟨pair, hpair, (Option.some.inj hsame).symm⟩)
    · rw [h.hooked pair hpair a ((name_setHook hlt a).trans ha), node_setHook hlt]
      split <;> rfl
  · have hne : a ≠ id := fun heq => ha _ List.mem_cons_self (heq ▸ hid.name_eq)
    rw [h.kept a fun pair hpair => ?_, node_setHook hlt, if_neg hne]
    rw [name_setHook hlt]
    exact ha pair (List.mem_cons_of_mem _ hpair)

theorem Refuses.cons {name' : String} {e : WiringError} (hid : g.IsOnly id name)
    (h : (g.setHook id hook).Refuses table name' e) : g.Refuses ((name, hook) :: table) name' e := by
  have hlt := lt_size_of_name hid.name_eq
  cases h with
  | missing h => exact .missing fun a => name_setHook hlt a ▸ h a
  | ambiguous hids hnodup hcount =>
    exact .ambiguous (fun a => name_setHook hlt a ▸ hids a) hnodup hcount
  | @duplicate id' hid' h =>
    rw [isOnly_setHook hlt] at hid'
    refine .duplicate hid' ?_
    rcases h with h | h
    · rw [node_setHook hlt] at h
      split at h
      case isTrue heq =>
        subst heq
        exact .inr (hid'.name_unique hid ▸ List.mem_cons_self)
      case isFalse => exact .inl h
    · exact .inr (List.mem_cons_of_mem _ h)

/-- A refused name has no room. -/
theorem Refuses.not_hasRoomFor {before after : List (String × Hook)} {e : WiringError}
    (h : g.Refuses before name e) : ¬g.HasRoomFor (before ++ (name, hook) :: after) := by
  rintro ⟨hnodup, hfree⟩
  obtain ⟨id, hid, hnone⟩ := hfree (name, hook) (by simp)
  cases h with
  | missing h => exact h id hid.name_eq
  | @ambiguous ids hids hnodup' hcount =>
    have hsub : ids ⊆ [id] := fun a ha => List.mem_singleton.2 ((hid a).1 ((hids a).1 ha))
    have hle := (List.Nodup.subperm hnodup' hsub).length_le
    rw [List.length_singleton] at hle
    omega
  | duplicate hid' h =>
    rcases h with h | h
    · exact h (hid.unique hid' ▸ hnone)
    · rw [List.map_append, List.map_cons] at hnodup
      exact (List.nodup_append.1 hnodup).2.2 name h name List.mem_cons_self rfl

end Tables

section Wire

/-- What wiring can come to: all hooks of the table are attached, or those up to a name that is refused. -/
inductive Wires (g : Graph Hook) :
    List (String × Hook) → Graph Hook × Except WiringError Unit → Prop
  | all {table : List (String × Hook)} {g' : Graph Hook} (hroom : g.HasRoomFor table)
      (h : g.Hooked table g') : Wires g table (g', .ok ())
  | upTo {before after : List (String × Hook)} {name : String} {hook : Hook} {e : WiringError}
      {g' : Graph Hook} (hroom : g.HasRoomFor before) (hrefused : g.Refuses before name e)
      (h : g.Hooked before g') : Wires g (before ++ (name, hook) :: after) (g', .error e)

theorem Wires.cons {id : Nat} {name : String} {hook : Hook} {table : List (String × Hook)}
    {r : Graph Hook × Except WiringError Unit} (hid : g.IsOnly id name)
    (hnone : (g.node id).hook = none) (h : (g.setHook id hook).Wires table r) :
    g.Wires ((name, hook) :: table) r := by
  have hnew {table : List (String × Hook)} (hroom : g.HasRoomFor ((name, hook) :: table)) :
      name ∉ table.map Prod.fst := (List.nodup_cons.1 hroom.nodup).1
  cases h with
  | all hroom h =>
    have hroom := (hasRoomFor_cons hid).2 ⟨hnone, hroom⟩
    exact .all hroom (h.cons hid (hnew hroom))
  | upTo hroom hrefused h =>
    have hroom := (hasRoomFor_cons hid).2 ⟨hnone, hroom⟩
    exact .upTo hroom (hrefused.cons hid) (h.cons hid (hnew hroom))

theorem hasRoomFor_nil (g : Graph Hook) : g.HasRoomFor [] := ⟨List.nodup_nil, nofun⟩

/-- Where the first name of a table is refused, nothing changes. -/
theorem Wires.refused {name : String} {hook : Hook} {table : List (String × Hook)} {e : WiringError}
    (h : g.Refuses [] name e) : g.Wires ((name, hook) :: table) (g, .error e) :=
  .upTo (hasRoomFor_nil g) h (hooked_nil g)

theorem wires (table : List (String × Hook)) (g : Graph Hook) : g.Wires table (wire table g) := by
  induction table generalizing g with
  | nil => exact .all (hasRoomFor_nil g) (hooked_nil g)
  | cons pair table ih =>
    obtain ⟨name, hook⟩ := pair
    rw [wire]
    split
    case h_1 hnamed =>
      refine .refused (.missing fun id hid => ?_)
      rw [← mem_named, hnamed] at hid
      cases hid
    case h_2 id hnamed =>
      have hid := isOnly_of_named hnamed
      by_cases hhook : (g.node id).hook.isSome = true
      · rw [if_pos hhook]
        exact .refused (.duplicate hid (.inl (Option.isSome_iff_ne_none.1 hhook)))
      · rw [if_neg hhook]
        exact (ih _).cons hid (by simpa using hhook)
    case h_3 hnil hsingle =>
      refine .refused (.ambiguous (fun id => mem_named) (nodup_named name) ?_)
      match hnamed : g.named name with
      | [] => exact absurd hnamed hnil
      | [id] => exact absurd hnamed (hsingle id)
      | _ :: _ :: _ => simp

/-- A table is attached iff its names differ and each is that of one node only, which has no hook. Then those
nodes have their hooks and nothing else has changed. Otherwise the first pair that finds no place behind those
before it is reported, and just these are attached. -/
theorem wire_attaches_table (table : List (String × Hook)) (g : Graph Hook) :
    ((wire table g).2 = .ok () ↔ g.HasRoomFor table) ∧
    ((wire table g).2 = .ok () → g.Hooked table (wire table g).1) ∧
    ∀ e, (wire table g).2 = .error e → ∃ before name hook after,
      table = before ++ (name, hook) :: after ∧ g.HasRoomFor before ∧ g.Refuses before name e ∧
        g.Hooked before (wire table g).1 := by
  have hwires := wires table g
  generalize wire table g = r at hwires
  cases hwires with
  | all hroom h => exact ⟨iff_of_true rfl hroom, fun _ => h, nofun⟩
  | @upTo before after name hook e g' hroom hrefused h =>
    refine ⟨iff_of_false nofun hrefused.not_hasRoomFor, nofun, ?_⟩
    rintro _ ⟨⟩
    exact ⟨before, name, hook, after, rfl, hroom, hrefused, h⟩

/-- A node takes no second hook and keeps its first one. -/
example :
    let g : Graph Nat := ⟨[⟨.integer, some "item", none, [1]⟩, ⟨.finish, some "end", none, []⟩], 0⟩
    wire [("end", 1), ("end", 2), ("item", 3)] g = (g.setHook 1 1, .error (.duplicateHook "end")) :=
  rfl

end Wire

end Graph
end DdlSchema
