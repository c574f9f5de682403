import DdlSchema.Graph.Basic
import DdlSchema.Mold.Basic

/-! The graph of a mold tree: molds of one name become one node. -/
namespace DdlSchema

inductive GraphError where
  | unknownVertexKind (kind : String) (extent : Extent)
  | incompatibleName (name first second : String) (extent : Extent)
deriving DecidableEq, Repr

namespace GraphError

def message : GraphError → String
  | unknownVertexKind kind _ => s!"no node kind for grammar vertex {kind}"
  | incompatibleName name first second _ =>
    s!"node `{name}` is declared as {first} and as {second}"

def extent : GraphError → Extent
  | unknownVertexKind _ e | incompatibleName _ _ _ e => e

end GraphError

/-- What kind of node a mold asks for. -/
abbrev VertexFactory := Mold → Except GraphError NodeKind

/-- The factory that decides on literals only. -/
def VertexFactory.ofLiteral (literal : String → Mold → Except GraphError NodeKind) :
    VertexFactory := fun m =>
  match m.kind with
  | .idle => .ok .idle
  | .finish => .ok .finish
  | .identifier => .ok .identifier
  | .integer => .ok .integer
  | .string => .ok .string
  | .multiWord words => .ok (.multiWord words)
  | .literal text => literal text m

namespace MoldKind

/-- Whether a later mold may share the name of the first one. -/
def compatible : MoldKind → MoldKind → Bool
  | literal a, literal b => Text.sameWord a b
  | multiWord a, multiWord b => b.isEmpty || a == b
  | idle, idle | finish, finish | identifier, identifier | integer, integer | string, string => true
  | _, _ => false

end MoldKind

namespace Graph

variable {Hook : Type}

/-- A graph in the making, with the node and the first mold kind of every name. -/
structure Plan (Hook : Type) where
  graph : Graph Hook := {}
  names : List (String × Nat × MoldKind) := []

/-- A new node for a mold. -/
def Plan.create (factory : VertexFactory) (p : Plan Hook) (m : Mold) :
    Except GraphError (Nat × Plan Hook) := do
  let kind ← factory m
  let id := p.graph.size
  let names := m.name.elim p.names fun name => (name, id, m.kind) :: p.names
  .ok (id, ⟨p.graph.addNode ⟨kind, m.name, none, []⟩, names⟩)

/-- The node of a mold: the one of its name, or a new one. -/
def Plan.place (factory : VertexFactory) (p : Plan Hook) (m : Mold) :
    Except GraphError (Nat × Plan Hook) :=
  match m.name with
  | none => p.create factory m
  | some name =>
    match p.names.lookup name with
    | none => p.create factory m
    | some (id, first) =>
      if first.compatible m.kind then .ok (id, p)
      else .error (.incompatibleName name first.text m.kind.text m.extent)

mutual

/-- Places a mold and then its children, each with an edge to it once it is complete. -/
def visit (factory : VertexFactory) (p : Plan Hook) :
    Mold → Except GraphError (Nat × Plan Hook)
  | ⟨kind, name, children, extent⟩ => do
    let (id, p) ← p.place factory ⟨kind, name, children, extent⟩
    let p ← visitAll factory id p children
    .ok (id, p)

def visitAll (factory : VertexFactory) (parent : Nat) (p : Plan Hook) :
    List Mold → Except GraphError (Plan Hook)
  | [] => .ok p
  | m :: ms => do
    let (id, p) ← visit factory p m
    visitAll factory parent { p with graph := p.graph.connect parent id } ms

end

/-- The graph of a mold tree, without hooks. -/
def build (factory : VertexFactory) (root : Mold) : Except GraphError (Graph Hook) := do
  let (id, p) ← visit factory {} root
  .ok { p.graph with root := id }

end Graph
end DdlSchema
