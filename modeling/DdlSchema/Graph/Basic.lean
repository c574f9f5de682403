import DdlSchema.Graph.Node

/-! Matcher graphs. Nodes are numbered from 0, so that loops are plain numbers. The numbers are not bounded;
on a machine they have 32 bits, which is a bound on the nodes of a graph. -/
namespace DdlSchema

structure Graph (Hook : Type) where
  nodes : List (Node Hook) := []
  root : Nat := 0
deriving DecidableEq, Repr

namespace Graph

variable {Hook : Type}

instance : Inhabited (Graph Hook) := ⟨⟨[], 0⟩⟩

def size (g : Graph Hook) : Nat := g.nodes.length

/-- The node of a number. A number without a node is a dead end. -/
def node (g : Graph Hook) (id : Nat) : Node Hook := g.nodes[id]?.getD default

def successors (g : Graph Hook) (id : Nat) : List Nat := (g.node id).successors

def addNode (g : Graph Hook) (node : Node Hook) : Graph Hook :=
  { g with nodes := g.nodes ++ [node] }

/-- Adds an edge behind the others of its node, unless it is there. -/
def connect (g : Graph Hook) (source target : Nat) : Graph Hook :=
  { g with nodes := g.nodes.modify source fun node =>
      if target ∈ node.successors then node
      else { node with successors := node.successors ++ [target] } }

def setHook (g : Graph Hook) (id : Nat) (hook : Hook) : Graph Hook :=
  { g with nodes := g.nodes.modify id fun node => { node with hook := some hook } }

/-- The numbers of all nodes of a name. -/
def named (g : Graph Hook) (name : String) : List Nat :=
  (List.range g.size).filter fun id => (g.node id).name == some name

@[simp] theorem size_addNode (g : Graph Hook) (node : Node Hook) :
    (g.addNode node).size = g.size + 1 := by simp [size, addNode]

@[simp] theorem size_connect (g : Graph Hook) (source target : Nat) :
    (g.connect source target).size = g.size := by simp [size, connect]

@[simp] theorem size_setHook (g : Graph Hook) (id : Nat) (hook : Hook) :
    (g.setHook id hook).size = g.size := by simp [size, setHook]

end Graph
end DdlSchema
