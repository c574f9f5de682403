import DdlSchema.Graph.Explore

/-! Graphs as text, one node a line. -/
namespace DdlSchema
namespace Graph

variable {Hook : Type}

/-- The line of a node: number, kind, name, hook and successors. A star marks the root. -/
def dumpLine (g : Graph Hook) (hookText : Option (Hook → String)) (id : Nat) : String :=
  let node := g.node id
  let root := if id = g.root then "*" else ""
  let name := node.name.elim "" (" @" ++ ·)
  let hook := (hookText <*> node.hook).elim "" (" +" ++ ·)
  let successors := if node.successors.isEmpty then "∅"
    else ", ".intercalate (node.successors.map fun id => s!"N{id}")
  s!"N{id}{root}: {node.kind.text}{name}{hook} → {successors}\n"

/-- The lines of all nodes, or of those that the root reaches; without hooks where no text is given
for them. -/
def dump (g : Graph Hook) (onlyReachable : Bool) (hookText : Option (Hook → String)) : String :=
  let reachable := g.reachable
  let ids := (List.range g.size).filter fun id => !onlyReachable || reachable.contains id
  String.join (ids.map (g.dumpLine hookText))

end Graph
end DdlSchema
