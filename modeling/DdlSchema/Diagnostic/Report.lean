import DdlSchema.Diagnostic.Highlight

/-! Errors shown in their source. How the part of a source is drawn is a parameter. -/
namespace DdlSchema
namespace Diagnostic

/-- A way to draw a message over the part of a source that it is about, with the path of the source. It
gives nothing where it breaks off. -/
abbrev Drawing := String → String → Option String → Extent → Option String

/-- An error with what is known of the place where it arose. -/
structure Report where
  error : Error
  source : Option String := none
  path : Option String := none
  statement : Option Extent := none

namespace Report

/-- The source with the part to show, where both are known. -/
def shown? (r : Report) : Option (String × Extent) := do
  let source ← r.source
  some (source, ← highlight r.error r.statement (byteSize source.toList))

def hasSnippet (r : Report) : Bool := r.shown?.isSome

/-- The error drawn in its source, or else the bare message. -/
def render (draw : Drawing) (r : Report) : Option String :=
  match r.shown? with
  | none => some r.error.message
  | some (source, e) => draw r.error.message source r.path e

/-- The report as a command ends with it. -/
def announce (draw : Drawing) (r : Report) : Option String :=
  (r.render draw).map fun text => if r.hasSnippet then text else "error: " ++ text

end Report
end Diagnostic
end DdlSchema
