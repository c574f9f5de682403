import DdlSchema.Schema

/-! The order of tables by their foreign keys. -/
namespace DdlSchema
namespace Catalog

/-- The positions of the other tables that a table refers to, by their names. -/
def dependencies (tables : List Table) (t : Table) : List Nat :=
  (t.referenced.filter (· != t.name)).flatMap fun name =>
    (List.range tables.length).filter fun i => tables[i]?.any (·.name == name)

/-- The next position to place: the first whose dependencies all have their places, or else the
first that waits. -/
def nextPosition (dependencies : Nat → List Nat) (waiting : List Nat) : Option Nat :=
  (waiting.find? fun i => (dependencies i).all fun j => !waiting.contains j) <|> waiting.head?

/-- Places the waiting positions one after another. -/
def placeAll (dependencies : Nat → List Nat) : Nat → List Nat → List Nat
  | 0, _ => []
  | fuel + 1, waiting =>
    match nextPosition dependencies waiting with
    | none => []
    | some i => i :: placeAll dependencies fuel (waiting.erase i)

/-- The positions of some tables, with those that a table refers to before it. -/
def dependencyOrder (tables : List Table) : List Nat :=
  let table := fun i => tables[i]?.getD default
  placeAll (fun i => dependencies tables (table i)) tables.length (List.range tables.length)

/-- The tables with those that a table refers to before it, or behind it. -/
def arrange (independentFirst : Bool) (tables : List Table) : List Table :=
  let order := dependencyOrder tables
  (if independentFirst then order else order.reverse).filterMap (tables[·]?)

end Catalog
end DdlSchema
