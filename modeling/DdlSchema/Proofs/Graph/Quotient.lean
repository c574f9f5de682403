import DdlSchema.Graph.Build
import DdlSchema.Proofs.Graph.Explore
import DdlSchema.Proofs.Mold.Names
import Mathlib.Data.List.Induction

/-! The graph of a mold tree is the tree with the molds of one name put together: a node for each mold
that opens one, and an edge for each mold and its child. -/
namespace DdlSchema
namespace Graph

open Mold (firstOf founders nodeOf links linksAll)

variable {Hook : Type}

section Changes

variable (g : Graph Hook)

theorem getElem?_nodes {id : Nat} (h : id < g.size) : g.nodes[id]? = some (g.node id) := by
  rw [node, List.getElem?_eq_getElem h, Option.getD_some]

theorem node_connect (source target id : Nat) : (g.connect source target).node id =
    if id = source ∧ source < g.size ∧ target ∉ g.successors source then
      { g.node id with successors := g.successors id ++ [target] } else g.node id := by
  rcases Nat.lt_or_ge id g.size with hid | hid
  · have hsuccessors : (g.node id).successors = g.successors id := rfl
    rw [node, connect, List.getElem?_modify, getElem?_nodes g hid]
    simp only [Option.map_eq_map, Option.map_some, Option.getD_some, hsuccessors]
    by_cases hsource : source = id
    · subst hsource
      by_cases htarget : target ∈ g.successors source <;> simp [htarget, hid]
    · simp [hsource, Ne.symm hsource]
  · have hnot : ¬(id = source ∧ source < g.size ∧ target ∉ g.successors source) := by omega
    rw [if_neg hnot, node_of_size_le g hid, node_of_size_le _ (by simpa using hid)]

theorem successors_connect (source target id : Nat) : (g.connect source target).successors id =
    if id = source ∧ source < g.size ∧ target ∉ g.successors source then
      g.successors id ++ [target] else g.successors id := by
  rw [successors, node_connect]
  split <;> rfl

theorem node_addNode (node : Node Hook) (id : Nat) :
    (g.addNode node).node id = if id = g.size then node else g.node id := by
  rcases Nat.lt_trichotomy id g.size with hid | rfl | hid
  · rw [if_neg (by omega), Graph.node, addNode, List.getElem?_append_left hid]
    rfl
  · rw [if_pos rfl, Graph.node, addNode, size, List.getElem?_concat_length, Option.getD_some]
  · rw [if_neg (by omega), node_of_size_le g (by omega), node_of_size_le _ (by simp; omega)]

end Changes

section Represents

/-- Whether a mold can stand behind others: the factory makes a node of it if it opens one, and otherwise
it is compatible with the first mold of its name. -/
def Admits (factory : VertexFactory) (before : List Mold) (m : Mold) : Prop :=
  match m.name.bind fun name => before.find? (·.name == some name) with
  | none => ∃ kind, factory m = .ok kind
  | some first => first.kind.compatible m.kind = true

def AdmitsAll (factory : VertexFactory) (before : List Mold) : List Mold → Prop
  | [] => True
  | m :: ms => Admits factory before m ∧ AdmitsAll factory (before ++ [m]) ms

/-- The successors of a node by the pairs of molds and children: each once, in the order of the pairs. -/
def targets (ms : List Mold) (links : List (Nat × Nat)) (id : Nat) : List Nat :=
  ((links.filter fun e => nodeOf ms e.1 = id).map fun e => nodeOf ms e.2).eraseDups

/-- The node of a name with the kind of its first mold. -/
def entry (ms : List Mold) (name : String) : Option (Nat × MoldKind) :=
  (ms.find? (·.name == some name)).map fun first =>
    (nodeOf ms (ms.findIdx (·.name == some name)), first.kind)

/-- A graph in the making holds the nodes of some molds, with the edges of some pairs of them. -/
structure Represents (factory : VertexFactory) (ms : List Mold) (links : List (Nat × Nat))
    (p : Plan Hook) : Prop where
  size_eq : p.graph.size = (founders ms).length
  made : ∀ id q m, (founders ms)[id]? = some q → ms[q]? = some m →
    factory m = .ok (p.graph.node id).kind ∧ (p.graph.node id).name = m.name ∧
      (p.graph.node id).hook = none
  successors_eq : ∀ id, p.graph.successors id = targets ms links id
  inside : ∀ e ∈ links, e.1 < ms.length ∧ e.2 < ms.length
  lookup_eq : ∀ name, p.names.lookup name = entry ms name

variable {factory : VertexFactory} {ms : List Mold} {links : List (Nat × Nat)} {p : Plan Hook}

theorem entry_append_singleton (ms : List Mold) (m : Mold) (name : String) :
    entry (ms ++ [m]) name = (entry ms name).or
      (if m.name = some name then some (nodeOf (ms ++ [m]) ms.length, m.kind) else none) := by
  simp only [entry, List.find?_append, List.findIdx_append]
  cases hfirst : ms.find? (·.name == some name) with
  | some first =>
    have hlt : ms.findIdx (·.name == some name) < ms.length :=
      List.findIdx_lt_length.2 ⟨first, List.mem_of_find?_eq_some hfirst, by
        simpa using List.find?_some hfirst⟩
    simp [hlt, Mold.nodeOf_append_singleton m hlt]
  | none =>
    have hlt : ¬ms.findIdx (·.name == some name) < ms.length := by
      rw [List.findIdx_lt_length]
      rintro ⟨d, hd, hname⟩
      exact List.find?_eq_none.1 hfirst d hd hname
    by_cases hname : m.name = some name <;> simp [hlt, hname, List.findIdx_cons]

theorem targets_append_singleton (ms : List Mold) (links : List (Nat × Nat)) (a b id : Nat) :
    targets ms (links ++ [(a, b)]) id =
      if nodeOf ms a = id ∧ nodeOf ms b ∉ targets ms links id then
        targets ms links id ++ [nodeOf ms b] else targets ms links id := by
  unfold targets
  by_cases hid : nodeOf ms a = id
  · have hlast : [(a, b)].filter (fun e => nodeOf ms e.1 = id) = [(a, b)] := by simp [hid]
    rw [List.filter_append, hlast, List.map_append, List.map_singleton, eraseDups_append_singleton]
    simp only [hid, true_and, List.mem_eraseDups]
    split <;> simp_all
  · have hlast : [(a, b)].filter (fun e => nodeOf ms e.1 = id) = [] := by simp [hid]
    rw [List.filter_append, hlast, List.append_nil, if_neg fun h => hid h.1]

theorem Represents.nodeOf_lt (h : Represents factory ms links p) {a : Nat} (ha : a < ms.length) :
    nodeOf ms a < p.graph.size := by
  rw [h.size_eq]
  exact List.idxOf_lt_length_iff.2 (Mold.firstOf_mem_founders ha)

theorem Represents.connect (h : Represents factory ms links p) {a b : Nat} (ha : a < ms.length)
    (hb : b < ms.length) : Represents factory ms (links ++ [(a, b)])
      { p with graph := p.graph.connect (nodeOf ms a) (nodeOf ms b) } where
  size_eq := by simpa using h.size_eq
  made := by
    intro id q m hq hm
    rw [node_connect]
    split <;> exact h.made id q m hq hm
  successors_eq := by
    intro id
    have hsource := h.nodeOf_lt ha
    rw [successors_connect, h.successors_eq, h.successors_eq, targets_append_singleton]
    by_cases hid : nodeOf ms a = id
    · subst hid
      simp [hsource]
    · simp [hid, Ne.symm hid]
  inside := by
    intro e he
    rcases List.mem_append.1 he with he | he
    · exact h.inside e he
    · obtain rfl := List.mem_singleton.1 he
      exact ⟨ha, hb⟩
  lookup_eq := h.lookup_eq

theorem Represents.targets_eq (h : Represents factory ms links p) (m : Mold) (id : Nat) :
    targets (ms ++ [m]) links id = targets ms links id := by
  have hfilter : links.filter (fun e => nodeOf (ms ++ [m]) e.1 = id) =
      links.filter fun e => nodeOf ms e.1 = id :=
    List.filter_congr fun e he => by rw [Mold.nodeOf_append_singleton m (h.inside e he).1]
  unfold targets
  rw [hfilter]
  congr 1
  refine List.map_congr_left fun e he => ?_
  exact Mold.nodeOf_append_singleton m (h.inside e (List.mem_of_mem_filter he)).2

theorem Represents.inside_append (h : Represents factory ms links p) (m : Mold) :
    ∀ e ∈ links, e.1 < (ms ++ [m]).length ∧ e.2 < (ms ++ [m]).length := by
  intro e he
  have hinside := h.inside e he
  simp only [List.length_append]
  omega

theorem firstOf_append_singleton (ms : List Mold) (m : Mold) :
    firstOf (ms ++ [m]) ms.length = m.name.elim ms.length fun name =>
      if ms.findIdx (·.name == some name) < ms.length then ms.findIdx (·.name == some name)
      else ms.length := by
  rw [Mold.firstOf_eq (List.getElem?_concat_length)]
  cases hname : m.name with
  | none => rfl
  | some name => simp [List.findIdx_append, List.findIdx_cons, hname]

theorem findIdx_lt_iff (name : String) :
    ms.findIdx (·.name == some name) < ms.length ↔ entry ms name ≠ none := by
  rw [List.findIdx_lt_length, entry, Ne, Option.map_eq_none_iff, ← Ne,
    ← Option.isSome_iff_ne_none, List.find?_isSome]

/-- A new node for a mold whose name has not come before. -/
theorem Represents.create (h : Represents factory ms links p) {m : Mold} {kind : NodeKind}
    (hkind : factory m = .ok kind)
    (hnew : ∀ name, m.name = some name → entry ms name = none) :
    ∃ p', p.create factory m = .ok (nodeOf (ms ++ [m]) ms.length, p') ∧
      Represents factory (ms ++ [m]) links p' := by
  have hfirst : firstOf (ms ++ [m]) ms.length = ms.length := by
    rw [firstOf_append_singleton]
    cases hname : m.name with
    | none => rfl
    | some name => exact if_neg fun hlt => (findIdx_lt_iff name).1 hlt (hnew name hname)
  have hfounders : founders (ms ++ [m]) = founders ms ++ [ms.length] := by
    rw [Mold.founders_append_singleton, if_pos hfirst]
  have hnumber : nodeOf (ms ++ [m]) ms.length = p.graph.size := by
    have hnot : ms.length ∉ founders ms := fun hmem => Nat.lt_irrefl _ (Mold.mem_founders.1 hmem).1
    rw [nodeOf, hfirst, hfounders, List.idxOf_append_of_notMem hnot, h.size_eq]
    simp
  refine ⟨_, by rw [Plan.create, hkind, hnumber]; rfl, ?_⟩
  refine ⟨?_, ?_, ?_, h.inside_append m, ?_⟩
  · rw [size_addNode, h.size_eq, hfounders, List.length_append, List.length_singleton]
  · intro id q m' hq hm'
    rw [node_addNode]
    rw [hfounders] at hq
    rcases Nat.lt_or_ge id (founders ms).length with hid | hid
    · rw [List.getElem?_append_left hid] at hq
      have hq' : q < ms.length := (Mold.mem_founders.1 (List.mem_of_getElem? hq)).1
      rw [List.getElem?_append_left hq'] at hm'
      rw [if_neg (by rw [h.size_eq]; omega)]
      exact h.made id q m' hq hm'
    · obtain ⟨hid', rfl⟩ : id - (founders ms).length = 0 ∧ ms.length = q := by
        rw [List.getElem?_append_right hid] at hq
        simpa using List.getElem?_eq_some_iff.1 hq
      obtain rfl : m = m' := by simpa using hm'
      rw [if_pos (by rw [h.size_eq]; omega)]
      exact ⟨hkind, rfl, rfl⟩
  · intro id
    rw [h.targets_eq, ← h.successors_eq, successors, node_addNode]
    split
    case isTrue hid => rw [hid, successors_of_size_le _ (Nat.le_refl _)]
    case isFalse => rfl
  · intro name
    rw [entry_append_singleton, hnumber, ← h.lookup_eq]
    cases hname : m.name with
    | none => simp
    | some name' =>
      by_cases heq : name' = name
      · subst heq
        have hnone := (h.lookup_eq name').trans (hnew name' hname)
        simp [hnone]
      · have hne : (name == name') = false := by simpa using Ne.symm heq
        simp [List.lookup_cons, hne, heq]

/-- The node of a name that has come before. -/
theorem Represents.reuse (h : Represents factory ms links p) {m : Mold} {name : String}
    (hname : m.name = some name) {id : Nat} {first : MoldKind}
    (hentry : entry ms name = some (id, first)) :
    id = nodeOf (ms ++ [m]) ms.length ∧ Represents factory (ms ++ [m]) links p := by
  have hlt : ms.findIdx (·.name == some name) < ms.length :=
    (findIdx_lt_iff name).2 (by simp [hentry])
  have hfirst : firstOf (ms ++ [m]) ms.length = ms.findIdx (·.name == some name) := by
    rw [firstOf_append_singleton, hname, Option.elim, if_pos hlt]
  have hfounders : founders (ms ++ [m]) = founders ms := by
    rw [Mold.founders_append_singleton, hfirst, if_neg (by omega), List.append_nil]
  have hnumber : id = nodeOf (ms ++ [m]) ms.length := by
    obtain ⟨_, -, heq⟩ := Option.map_eq_some_iff.1 hentry
    rw [nodeOf, hfounders, hfirst, ← (Prod.mk.inj heq).1, nodeOf, Mold.firstOf_findIdx hlt]
  refine ⟨hnumber, by rw [hfounders, h.size_eq], ?_, ?_, h.inside_append m, ?_⟩
  · intro id' q m' hq hm'
    rw [hfounders] at hq
    have hq' : q < ms.length := (Mold.mem_founders.1 (List.mem_of_getElem? hq)).1
    rw [List.getElem?_append_left hq'] at hm'
    exact h.made id' q m' hq hm'
  · intro id'
    rw [h.targets_eq, h.successors_eq]
  · intro name'
    rw [entry_append_singleton, h.lookup_eq, hname]
    by_cases heq : name = name'
    · subst heq
      simp [hentry]
    · simp [heq]

end Represents

section Visits

variable {factory : VertexFactory}

/-- The computation succeeds iff the condition holds, and then its value is as it should be. -/
def SucceedsIff {α : Type} (condition : Prop) (good : α → Prop) : Except GraphError α → Prop
  | .ok a => condition ∧ good a
  | .error _ => ¬condition

theorem SucceedsIff.bind {α β : Type} {A B : Prop} {good : α → Prop} {good' : β → Prop}
    {x : Except GraphError α} {f : α → Except GraphError β} (hx : SucceedsIff A good x)
    (hf : ∀ a, good a → SucceedsIff B good' (f a)) : SucceedsIff (A ∧ B) good' (x >>= f) := by
  cases x with
  | error e => exact fun h => hx h.1
  | ok a =>
    have ha := hf a hx.2
    change SucceedsIff (A ∧ B) good' (f a)
    generalize f a = y at ha
    cases y with
    | error e => exact fun h => ha h.2
    | ok b => exact ⟨⟨hx.1, ha.1⟩, ha.2⟩

theorem SucceedsIff.map {α β : Type} {A : Prop} {good : α → Prop} {good' : β → Prop}
    {x : Except GraphError α} {f : α → β} (hx : SucceedsIff A good x)
    (hf : ∀ a, good a → good' (f a)) : SucceedsIff A good' (x >>= fun a => .ok (f a)) := by
  cases x with
  | error e => exact hx
  | ok a => exact ⟨hx.1, hf a hx.2⟩

theorem Represents.place {ms : List Mold} {es : List (Nat × Nat)} {p : Plan Hook}
    (h : Represents factory ms es p) (m : Mold) :
    SucceedsIff (Admits factory ms m)
      (fun r => r.1 = nodeOf (ms ++ [m]) ms.length ∧ Represents factory (ms ++ [m]) es r.2)
      (p.place factory m) := by
  -- A mold that opens a node is refused by the factory alone.
  have hopens (hnew : ∀ name, m.name = some name → entry ms name = none) :
      SucceedsIff (∃ kind, factory m = .ok kind)
        (fun r => r.1 = nodeOf (ms ++ [m]) ms.length ∧ Represents factory (ms ++ [m]) es r.2)
        (p.create factory m) := by
    cases hkind : factory m with
    | error e =>
      have herror : p.create factory m = .error e := by rw [Plan.create, hkind]; rfl
      rw [herror]
      rintro ⟨kind, ⟨⟩⟩
    | ok kind =>
      obtain ⟨p', hcreate, hp'⟩ := h.create hkind hnew
      rw [hcreate]
      exact ⟨⟨kind, rfl⟩, rfl, hp'⟩
  unfold Plan.place Admits
  cases hname : m.name with
  | none => exact hopens fun name hname' => by simp [hname] at hname'
  | some name =>
    have hlookup := h.lookup_eq name
    cases hfirst : ms.find? (·.name == some name) with
    | none =>
      have hentry : entry ms name = none := by rw [entry, hfirst]; rfl
      simp only [Option.bind_some, hfirst, hlookup, hentry]
      exact hopens fun name' hname' => by
        obtain rfl : name = name' := Option.some.inj (hname.symm.trans hname')
        exact hentry
    | some first =>
      obtain ⟨id, hentry⟩ : ∃ id, entry ms name = some (id, first.kind) := by
        rw [entry, hfirst]
        exact ⟨_, rfl⟩
      simp only [Option.bind_some, hfirst, hlookup, hentry]
      by_cases hcompatible : first.kind.compatible m.kind = true
      · rw [if_pos hcompatible]
        exact ⟨hcompatible, h.reuse hname hentry⟩
      · rw [if_neg hcompatible]
        exact hcompatible

theorem admitsAll_append (ms a b : List Mold) : AdmitsAll factory ms (a ++ b) ↔
    AdmitsAll factory ms a ∧ AdmitsAll factory (ms ++ a) b := by
  induction a generalizing ms with
  | nil => simp [AdmitsAll]
  | cons m a ih =>
    rw [List.cons_append, AdmitsAll, AdmitsAll, ih, and_assoc, List.append_assoc, List.singleton_append]

mutual

theorem visit_represents : ∀ (m : Mold) {ms : List Mold} {es : List (Nat × Nat)} {p : Plan Hook},
    Represents factory ms es p → SucceedsIff (AdmitsAll factory ms m.preorder)
      (fun r => r.1 = nodeOf (ms ++ m.preorder) ms.length ∧
        Represents factory (ms ++ m.preorder) (es ++ links ms.length m) r.2)
      (visit factory p m)
  | ⟨kind, name, children, extent⟩, ms, es, p, h => by
    rw [Mold.preorder_mk, AdmitsAll, visit, links]
    refine (h.place _).bind ?_
    rintro ⟨id, p'⟩ ⟨rfl, hp'⟩
    have hparent : ms.length < (ms ++ [(⟨kind, name, children, extent⟩ : Mold)]).length := by simp
    have hall := visitAll_represents children hp' hparent
    rw [List.length_append, List.length_singleton] at hall
    refine hall.map fun p'' hp'' => ⟨?_, ?_⟩
    · dsimp only
      rw [List.append_cons ms _ (children.flatMap Mold.preorder), Mold.nodeOf_append _ hparent]
    · rwa [List.append_cons]

theorem visitAll_represents : ∀ (children : List Mold) {ms : List Mold} {es : List (Nat × Nat)}
    {p : Plan Hook}, Represents factory ms es p → ∀ {parent : Nat}, parent < ms.length →
    SucceedsIff (AdmitsAll factory ms (children.flatMap Mold.preorder))
      (Represents factory (ms ++ children.flatMap Mold.preorder)
        (es ++ linksAll parent ms.length children))
      (visitAll factory (nodeOf ms parent) p children)
  | [], ms, es, p, h, parent, hparent => by
    simpa [visitAll, SucceedsIff, AdmitsAll, linksAll] using h
  | m :: children, ms, es, p, h, parent, hparent => by
    rw [List.flatMap_cons, admitsAll_append, visitAll, linksAll]
    refine (visit_represents m h).bind ?_
    rintro ⟨id, p'⟩ ⟨rfl, hp'⟩
    have hchild : ms.length < (ms ++ m.preorder).length := by
      have hpos := m.length_preorder_pos
      rw [List.length_append]
      omega
    have hparent' : parent < (ms ++ m.preorder).length := by omega
    have hall := visitAll_represents children (hp'.connect hparent' hchild) hparent'
    rw [Mold.nodeOf_append _ hparent] at hall
    simpa using hall

end

end Visits

section Quotient

/-- A graph is the tree with the molds of one name put together. Its nodes stand in the order in which
their first molds stand in the tree, and the molds of a tree are given by their numbers in pre-order. -/
structure IsQuotient (factory : VertexFactory) (root : Mold) (g : Graph Hook) : Prop where
  root_eq : g.root = 0
  size_eq : g.size = (founders root.preorder).length
  /-- The kind and the name of a node are those of its first mold. -/
  made : ∀ id q m, (founders root.preorder)[id]? = some q → root.preorder[q]? = some m →
    factory m = .ok (g.node id).kind ∧ (g.node id).name = m.name ∧ (g.node id).hook = none
  /-- An edge leads to a node where a mold of it is a child. -/
  edge_iff : ∀ a b, b ∈ g.successors a ↔
    ∃ e ∈ links 0 root, nodeOf root.preorder e.1 = a ∧ nodeOf root.preorder e.2 = b
  nodup_successors : ∀ id, (g.successors id).Nodup
  /-- The edges stand in the order in which the forms of the children end. -/
  successors_eq : ∀ id, g.successors id = targets root.preorder (links 0 root) id
  length_named_le : ∀ name, (g.named name).length ≤ 1
  reachable : ∀ id < g.size, id ∈ g.reachable
  mem_reserved : ∀ word, word ∈ g.reserved.words ↔ ∃ node ∈ g.nodes,
    (∃ text, node.kind = .exactWord text ∧ Text.lower text = word) ∨
      ∃ texts, node.kind = .multiWord texts ∧ ∃ text ∈ texts, Text.lower text = word

variable {factory : VertexFactory} {root : Mold} {ms : List Mold} {es : List (Nat × Nat)}

theorem mem_targets {a b : Nat} :
    b ∈ targets ms es a ↔ ∃ e ∈ es, nodeOf ms e.1 = a ∧ nodeOf ms e.2 = b := by
  simp [targets, and_assoc]

/-- The nodes that the root reaches are those of the molds. -/
theorem Represents.mem_reachable_iff {p : Plan Hook}
    (h : Represents factory root.preorder (links 0 root) p) (id : Nat) :
    id ∈ (⟨p.graph.nodes, nodeOf root.preorder 0⟩ : Graph Hook).reachable ↔ id < p.graph.size := by
  have hsize : 0 < p.graph.size := Nat.zero_lt_of_lt (h.nodeOf_lt root.length_preorder_pos)
  have hedges (a b : Nat) : b ∈ p.graph.successors a ↔
      ∃ e ∈ links 0 root, nodeOf root.preorder e.1 = a ∧ nodeOf root.preorder e.2 = b := by
    rw [h.successors_eq, mem_targets]
  rw [mem_reachable (g := ⟨p.graph.nodes, nodeOf root.preorder 0⟩) hsize]
  constructor
  · intro hreach
    rcases Relation.ReflTransGen.cases_tail hreach with rfl | ⟨a, -, hedge⟩
    · exact h.nodeOf_lt root.length_preorder_pos
    · obtain ⟨e, he, -, rfl⟩ := (hedges _ _).1 hedge
      exact h.nodeOf_lt (h.inside e he).2
  · intro hid
    rw [h.size_eq] at hid
    obtain ⟨hlt, hself⟩ := Mold.mem_founders.1 (List.getElem_mem hid)
    have hnode : nodeOf root.preorder (founders root.preorder)[id] = id := by
      rw [nodeOf, hself, Mold.nodup_founders.idxOf_getElem]
    rw [← hnode]
    clear hnode hself
    generalize (founders root.preorder)[id] = q at hlt
    -- The parent of a mold stands before it.
    induction q using Nat.strongRecOn with
    | ind q ih =>
      rcases Nat.eq_zero_or_pos q with rfl | hpos
      · exact .refl
      · obtain ⟨q', -, hbefore, hmem⟩ := Mold.exists_parent 0 q root hpos (by omega)
        exact (ih q' hbefore (by omega)).tail ((hedges _ _).2 ⟨(q', q), hmem, rfl, rfl⟩)

theorem length_named_le_one {g : Graph Hook} (hsize : g.size = (founders ms).length)
    (hname : ∀ id q m, (founders ms)[id]? = some q → ms[q]? = some m → (g.node id).name = m.name)
    (name : String) : (g.named name).length ≤ 1 := by
  have hnodup : (g.named name).Nodup := List.nodup_range.filter _
  -- A node of the name is made for the first mold of the name.
  have hplace {id : Nat} (hid : id ∈ g.named name) :
      id = (founders ms).idxOf (ms.findIdx (·.name == some name)) := by
    simp only [named, List.mem_filter, List.mem_range, beq_iff_eq, hsize] at hid
    have hq : (founders ms)[id]? = some (founders ms)[id] := List.getElem?_eq_getElem hid.1
    obtain ⟨hlt, hself⟩ := Mold.mem_founders.1 (List.mem_of_getElem? hq)
    have hm := List.getElem?_eq_getElem hlt
    rw [Mold.firstOf_eq hm, ← hname _ _ _ hq hm, hid.2, Option.elim] at hself
    rw [hself, Mold.nodup_founders.idxOf_getElem]
  match hids : g.named name with
  | [] | [_] => simp
  | id :: id' :: ids =>
    rw [hids] at hnodup
    have hne : id ≠ id' := by grind
    exact absurd ((hplace (by simp [hids])).trans (hplace (by simp [hids])).symm) hne

theorem mem_reserved_of_reachable {g : Graph Hook} (hreach : ∀ id < g.size, id ∈ g.reachable)
    (hinside : ∀ id ∈ g.reachable, id < g.size) (word : String) :
    word ∈ g.reserved.words ↔ ∃ node ∈ g.nodes,
      (∃ text, node.kind = .exactWord text ∧ Text.lower text = word) ∨
        ∃ texts, node.kind = .multiWord texts ∧ ∃ text ∈ texts, Text.lower text = word := by
  have hnodes (P : Node Hook → Prop) :
      (∃ node ∈ g.nodes, P node) ↔ ∃ id ∈ g.reachable, P (g.node id) := by
    rw [nodes_eq_map_node]
    simp only [List.mem_map, List.mem_range, exists_exists_and_eq_and]
    exact ⟨fun ⟨id, hid, h⟩ => ⟨id, hreach id hid, h⟩,
      fun ⟨id, hid, h⟩ => ⟨id, hinside id hid, h⟩⟩
  rw [reserved, ReservedWords.mem_words_ofList, hnodes]
  simp only [keywords, List.mem_flatMap]
  constructor
  · rintro ⟨text, ⟨id, hid, htext⟩, rfl⟩
    refine ⟨id, hid, ?_⟩
    split at htext
    case h_1 exact hkind => exact .inl ⟨exact, hkind, by rw [List.mem_singleton.1 htext]⟩
    case h_2 texts hkind => exact .inr ⟨texts, hkind, text, htext, rfl⟩
    case h_3 => cases htext
  · rintro ⟨id, hid, ⟨text, hkind, rfl⟩ | ⟨texts, hkind, text, htext, rfl⟩⟩
    · exact ⟨text, ⟨id, hid, by simp [hkind]⟩, rfl⟩
    · exact ⟨text, ⟨id, hid, by simpa [hkind] using htext⟩, rfl⟩

theorem Represents.isQuotient {p : Plan Hook}
    (h : Represents factory root.preorder (links 0 root) p) :
    IsQuotient factory root ⟨p.graph.nodes, nodeOf root.preorder 0⟩ where
  root_eq := Mold.nodeOf_zero root.length_preorder_pos
  size_eq := h.size_eq
  made := h.made
  edge_iff a b := by
    rw [← mem_targets, ← h.successors_eq]
    rfl
  nodup_successors id := by
    change (p.graph.successors id).Nodup
    rw [h.successors_eq]
    exact nodup_eraseDups _
  successors_eq := h.successors_eq
  length_named_le := length_named_le_one h.size_eq fun id q m hq hm => (h.made id q m hq hm).2.1
  reachable id hid := (h.mem_reachable_iff id).2 hid
  mem_reserved := mem_reserved_of_reachable (fun id hid => (h.mem_reachable_iff id).2 hid)
    fun id hid => (h.mem_reachable_iff id).1 hid

theorem admitsAll_iff (before ms : List Mold) : AdmitsAll factory before ms ↔
    ∀ q m, ms[q]? = some m → Admits factory (before ++ ms.take q) m := by
  induction ms generalizing before with
  | nil => simp [AdmitsAll]
  | cons m ms ih =>
    rw [AdmitsAll, ih]
    constructor
    · rintro ⟨hm, hms⟩ q m' hq
      cases q with
      | zero => simpa [← Option.some.inj hq] using hm
      | succ q => simpa using hms q m' hq
    · intro h
      exact ⟨by simpa using h 0 m rfl, fun q m' hq => by simpa using h (q + 1) m' hq⟩

theorem represents_nil : Represents factory [] [] ({} : Plan Hook) where
  size_eq := rfl
  made := nofun
  successors_eq _ := rfl
  inside := nofun
  lookup_eq _ := rfl

/-- The graph of a tree is the tree with the molds of one name put together. There is one unless the
factory refuses a mold that opens a node or a later mold does not fit the first one of its name. -/
theorem build_isQuotient (factory : VertexFactory) (root : Mold) :
    ((∃ g : Graph Hook, build factory root = .ok g) ↔
      ∀ q m, root.preorder[q]? = some m → Admits factory (root.preorder.take q) m) ∧
      ∀ g : Graph Hook, build factory root = .ok g → IsQuotient factory root g := by
  have hbuild : SucceedsIff (AdmitsAll factory [] root.preorder)
      (fun g : Graph Hook => IsQuotient factory root g) (build factory root) := by
    refine (visit_represents root represents_nil).map ?_
    rintro ⟨id, p⟩ ⟨rfl, hp⟩
    exact hp.isQuotient
  rw [admitsAll_iff] at hbuild
  simp only [List.nil_append] at hbuild
  cases hg : (build factory root : Except GraphError (Graph Hook)) with
  | error e =>
    rw [hg] at hbuild
    exact ⟨⟨by simp, fun h => absurd h hbuild⟩, by simp⟩
  | ok g =>
    rw [hg] at hbuild
    refine ⟨⟨fun _ => hbuild.1, fun _ => ⟨g, rfl⟩⟩, ?_⟩
    rintro _ ⟨⟩
    exact hbuild.2

/-- A list of columns, where a comma leads back to the first one. -/
theorem build_isQuotient_columns :
    let column (children : List Mold) : Mold := ⟨.identifier, some "column", children, ⟨0, 0⟩⟩
    let comma : Mold := ⟨.literal ",", none, [column []], ⟨0, 0⟩⟩
    let root : Mold := ⟨.idle, none, [column [comma, ⟨.finish, none, [], ⟨0, 0⟩⟩]], ⟨0, 0⟩⟩
    let factory := VertexFactory.ofLiteral fun text _ => .ok (.exactWord text)
    ∃ g : Graph Unit, build factory root = .ok g ∧ IsQuotient factory root g ∧
      g.successors 1 = [2, 3] ∧ g.successors 2 = [1] :=
  ⟨_, rfl, (build_isQuotient _ _).2 _ rfl, rfl, rfl⟩

end Quotient

end Graph
end DdlSchema
