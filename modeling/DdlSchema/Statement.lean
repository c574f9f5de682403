import DdlSchema.Text.Blank
import DdlSchema.Text.Extent

/-! Statements of a script. Semicolons separate them, except inside quotes and comments; a segment
without code is no statement. -/
namespace DdlSchema

/-- A statement with its byte offset in the script. -/
structure Statement where
  start : Nat
  text : String
deriving DecidableEq, Repr, Inhabited

namespace Statement

def stop (s : Statement) : Nat := s.start + byteSize s.text.toList

def extent (s : Statement) : Extent := ⟨s.start, s.stop⟩

/-- What the reading of a script stands in. -/
inductive Mode where
  | code
  | quoted (close : Char)
  | lineComment
  | blockComment
deriving DecidableEq, Repr

/-- The text between two separators, and whether it holds more than blanks and comments. -/
structure Segment where
  text : List Char
  hasCode : Bool
deriving DecidableEq, Repr

namespace Segment

/-- Puts characters in front of the first of some segments. -/
def push (cs : List Char) (isCode : Bool) (s : Segment × List Segment) :
    Segment × List Segment :=
  (⟨cs ++ s.1.text, isCode || s.1.hasCode⟩, s.2)

/-- The segments of a text: one more than it has separators. -/
def read : Mode → List Char → Segment × List Segment
  | _, [] => (⟨[], false⟩, [])
  | .code, ';' :: cs =>
    let (first, more) := read .code cs
    (⟨[], false⟩, first :: more)
  | .code, '-' :: '-' :: cs => push ['-', '-'] false (read .lineComment cs)
  | .code, '/' :: '*' :: cs => push ['/', '*'] false (read .blockComment cs)
  | .code, '\'' :: cs => push ['\''] true (read (.quoted '\'') cs)
  | .code, '"' :: cs => push ['"'] true (read (.quoted '"') cs)
  | .code, '`' :: cs => push ['`'] true (read (.quoted '`') cs)
  | .code, '[' :: cs => push ['['] true (read (.quoted ']') cs)
  | .code, c :: cs => push [c] (!Text.isWhiteSpace c) (read .code cs)
  | .quoted close, c :: cs => push [c] false (read (if c = close then .code else .quoted close) cs)
  | .lineComment, c :: cs => push [c] false (read (if c = '\n' then .code else .lineComment) cs)
  | .blockComment, '*' :: '/' :: cs => push ['*', '/'] false (read .code cs)
  | .blockComment, c :: cs => push [c] false (read .blockComment cs)

/-- The segment without the white space around it, for a segment that begins at `start`. -/
def trim (start : Nat) (s : Segment) : Statement :=
  ⟨start + byteSize (s.text.takeWhile Text.isWhiteSpace),
    .ofList (Text.trimEnd (Text.trimStart s.text))⟩

end Segment

/-- The statements among segments that begin at `start`, one separator apart. -/
def ofSegments : Nat → List Segment → List Statement
  | _, [] => []
  | start, s :: more =>
    let rest := ofSegments (start + byteSize s.text + 1) more
    if s.hasCode then s.trim start :: rest else rest

/-- The statements of a script. -/
def split (script : String) : List Statement :=
  let (first, more) := Segment.read .code script.toList
  ofSegments 0 (first :: more)

end Statement
end DdlSchema
