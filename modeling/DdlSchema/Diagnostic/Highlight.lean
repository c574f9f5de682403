import DdlSchema.Parser.Error

/-! The part of a source text that an error points at. -/
namespace DdlSchema
namespace Diagnostic

/-- Keeps an extent inside a text. An empty one takes a byte more where there is one. -/
def fit (limit : Nat) (e : Extent) : Extent :=
  let start := min e.start limit
  let stop := min e.stop limit
  if start = stop then ⟨start, min (start + 1) limit⟩ else ⟨start, stop⟩

/-- Where an error lies in a text of `limit` bytes. Errors of a statement count from its start, and
a statement that ends too early points at its end. -/
def highlight (e : Error) (statement : Option Extent) (limit : Nat) : Option Extent :=
  let offset := statement.elim 0 (·.start)
  let at? : Option Extent :=
    match e with
    | .grammar e => e.extent?
    | .graph e => some e.extent
    | e => e.span?.map (·.toExtent)
  match e with
  | .parse (.unexpectedEnd _) =>
    let stop := statement.elim limit (·.stop)
    some (fit limit ⟨stop, stop⟩)
  | _ => at?.map fun e => fit limit (e.shift offset)

end Diagnostic
end DdlSchema
