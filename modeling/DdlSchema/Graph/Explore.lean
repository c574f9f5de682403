import DdlSchema.Graph.Basic

/-! Exploring a graph along its edges, in breadth or in depth. Every node is met once. -/
namespace DdlSchema
namespace Graph

variable {Hook : Type}

/-- Whether new work waits behind the old work or comes before it. -/
inductive Order where
  | breadthFirst
  | depthFirst
deriving DecidableEq, Repr

def Order.join (order : Order) (new old : List Nat) : List Nat :=
  match order with
  | breadthFirst => old ++ new
  | depthFirst => new ++ old

@[simp] theorem Order.mem_join {order : Order} {new old : List Nat} {x : Nat} :
    x ∈ order.join new old ↔ x ∈ new ∨ x ∈ old := by
  cases order <;> simp [Order.join, or_comm]

/-- The nodes met from the waiting ones on, without those already seen. -/
def exploreFrom (next : Nat → List Nat) (order : Order) :
    Nat → List Nat → List Nat → List Nat
  | 0, _, _ => []
  | _ + 1, [], _ => []
  | fuel + 1, id :: waiting, seen =>
    if id ∈ seen then exploreFrom next order fuel waiting seen
    else id :: exploreFrom next order fuel (order.join (next id) waiting) (id :: seen)

def edgeCount (g : Graph Hook) : Nat := (g.nodes.flatMap Node.successors).length

/-- The nodes met from `starts` on. A node waits once for every start and edge that leads to it. -/
def explore (g : Graph Hook) (next : Nat → List Nat) (order : Order) (starts : List Nat) :
    List Nat :=
  exploreFrom next order (starts.length + g.edgeCount) starts []

/-- The nodes that the root reaches, the nearest first. -/
def reachable (g : Graph Hook) : List Nat :=
  if g.nodes.isEmpty then [] else g.explore g.successors .breadthFirst [g.root]

/-- The successors of idle nodes. -/
def idleSuccessors (g : Graph Hook) (id : Nat) : List Nat :=
  if (g.node id).kind = .idle then g.successors id else []

/-- What stands behind some nodes when one looks through the idle ones. -/
def frontier (g : Graph Hook) (starts : List Nat) : List Nat :=
  (g.explore g.idleSuccessors .depthFirst starts).filter fun id => (g.node id).kind ≠ .idle

/-- The words of the keywords that the root reaches. -/
def keywords (g : Graph Hook) : List String :=
  g.reachable.flatMap fun id =>
    match (g.node id).kind with
    | .exactWord word => [word]
    | .multiWord words => words
    | _ => []

/-- Words that are never bare identifiers. -/
def reserved (g : Graph Hook) : ReservedWords := .ofList g.keywords

end Graph
end DdlSchema
