import DdlSchema.Graph.Basic

/-! Hooks for the nodes of given names. -/
namespace DdlSchema

inductive WiringError where
  | missingNode (name : String)
  | ambiguousNode (name : String) (count : Nat)
  | duplicateHook (name : String)
deriving DecidableEq, Repr

namespace WiringError

def message : WiringError → String
  | missingNode name => s!"no node named `{name}`"
  | ambiguousNode name count => s!"{count} nodes are named `{name}`"
  | duplicateHook name => s!"node `{name}` already has a hook"

end WiringError

namespace Graph

variable {Hook : Type}

/-- Hooks the one node of each name, in order, up to the first name where that fails. The graph
keeps the hooks it has got. -/
def wire : List (String × Hook) → Graph Hook → Graph Hook × Except WiringError Unit
  | [], g => (g, .ok ())
  | (name, hook) :: more, g =>
    match g.named name with
    | [] => (g, .error (.missingNode name))
    | [id] =>
      if (g.node id).hook.isSome then (g, .error (.duplicateHook name))
      else wire more (g.setHook id hook)
    | ids => (g, .error (.ambiguousNode name ids.length))

end Graph
end DdlSchema
