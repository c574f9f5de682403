import DdlSchema.Diagnostic.Report
import DdlSchema.Text.Blank
import DdlSchema.Text.Width

/-! The drawing that the command line uses, in the layout of the tool that draws for it. Reports and
commands take it as a parameter. -/
namespace DdlSchema
namespace Diagnostic

/-- A line of a source, by bytes. Its end, one or two characters, is no part of the text. -/
structure Line where
  number : Nat
  start : Nat
  text : List Char
  stop : Nat
deriving Inhabited

/-- The text of a line without its carriage return. -/
def dropReturn (cs : List Char) : List Char :=
  if cs.getLast? = some '\r' then cs.dropLast else cs

/-- The lines of a text that goes on at a line. `text` holds what the line has so far, reversed. -/
def linesFrom (number start : Nat) (text : List Char) : List Char → List Line
  | [] =>
    if text.isEmpty then [] else [⟨number, start, text.reverse, start + byteSize text⟩]
  | c :: cs =>
    if c = '\n' then
      let stop := start + byteSize text + 1
      ⟨number, start, dropReturn text.reverse, stop⟩ :: linesFrom (number + 1) stop [] cs
    else linesFrom number start (c :: text) cs

/-- The lines of a source, at least one. -/
def lines (source : String) : List Line :=
  match linesFrom 1 0 [] source.toList with
  | [] => [⟨1, 0, [], 0⟩]
  | ls => ls

/-- The characters that fit in some bytes. -/
def takeBytes : Nat → List Char → List Char
  | _, [] => []
  | n, c :: cs => if c.utf8Size ≤ n then c :: takeBytes (n - c.utf8Size) cs else []

/-- A place in a source: its line, the characters and columns before it, and whether it lies behind
the text of the line. -/
structure Mark where
  line : Line
  chars : Nat
  columns : Nat
  beyond : Bool

/-- The mark of a byte offset. Behind the source, the last line has it. -/
def mark (ls : List Line) (offset : Nat) : Mark :=
  let line := ((ls.find? fun l => l.start ≤ offset && offset < l.stop) <|> ls.getLast?).getD default
  let before := takeBytes (offset - line.start) line.text
  ⟨line, before.length, Text.widthOf before, byteSize line.text < offset - line.start⟩

/-- Whether a byte offset lies inside a character of its line, where no mark can stand. -/
def cutsCharacter (ls : List Line) (offset : Nat) : Bool :=
  let m := mark ls offset
  byteSize (m.line.text.take m.chars) != min (offset - m.line.start) (byteSize m.line.text)

/-- What a piece of a report is. -/
inductive Style where
  | plain
  | gutter
  | level
  | title
  | underline
deriving DecidableEq

structure Piece where
  style : Style
  text : String

/-- Paints a piece bold, in the colour of its style. -/
def Piece.paint (colored : Bool) (p : Piece) : String :=
  if !colored || p.text.isEmpty then p.text
  else match p.style with
    | .plain => p.text
    | .gutter => "\x1b[1m\x1b[94m" ++ p.text ++ "\x1b[0m"
    | .level | .underline => "\x1b[1m\x1b[91m" ++ p.text ++ "\x1b[0m"
    | .title => "\x1b[1m" ++ p.text ++ "\x1b[0m"

/-- One line of a report. -/
abbrev Row := List Piece

def spaces (n : Nat) : String := .ofList (List.replicate n ' ')

def underscores (n : Nat) : String := .ofList (List.replicate n '_')

def carets (n : Nat) : String := .ofList (List.replicate n '^')

def visibleText (cs : List Char) : String := .ofList (cs.flatMap Text.visible)

/-- The rows of a message. The lines after the first stand below the first. -/
def titleRows (message : String) : List Row :=
  match (String.ofList (message.toList.flatMap Text.visible)).splitOn "\n" with
  | [] => []
  | first :: more =>
    [⟨.level, "error"⟩, ⟨.title, ": " ++ first⟩] ::
      more.map fun line => [⟨.plain, spaces 7⟩, ⟨.title, line⟩]

/-- The bar below the line numbers, `width` wide. -/
def bar (width : Nat) : Row := [⟨.plain, spaces (width + 1)⟩, ⟨.gutter, "|"⟩]

/-- A line with its number. -/
def numbered (width : Nat) (l : Line) (between : Row) : Row :=
  let number := toString l.number
  let text := visibleText l.text
  [⟨.plain, spaces (width - number.length)⟩, ⟨.gutter, number⟩, ⟨.plain, " "⟩, ⟨.gutter, "|"⟩] ++
    between ++ (if text.isEmpty then [] else [⟨.plain, " " ++ text⟩])

/-- An underlined part of one line. -/
def singleLine (width : Nat) (start stop : Mark) : List Row :=
  [numbered width start.line [],
    bar width ++ [⟨.plain, spaces (start.columns + 1)⟩,
      ⟨.underline, carets (max 1 (stop.columns - start.columns))⟩]]

/-- Lines that end a long range early when they are its last ones shown. -/
def isFiller (l : Line) : Bool :=
  let text := String.ofList (Text.trimEnd (Text.trimStart l.text))
  (text.startsWith "//" && !(text.startsWith "///" || text.startsWith "//!")) ||
    ["", "\x7b", "\x7d", "(", ")", "[", "]"].contains text

/-- The numbers of the lines shown between the first and the last line of a range: the three after
the first without the fillers at their end, and the one before the last. -/
def shownBetween (ls : List Line) (first last : Nat) : List Nat :=
  let isText := fun n => (ls.find? (·.number == n)).any fun l => !isFiller l
  let middle := min (first + 4) last
  let near := (List.range' first (middle - first)).reverse.dropWhile (!isText ·)
  let near := near.reverse.filter (first < ·)
  near ++ if middle < last - 1 && isText (last - 1) then [last - 1] else []

/-- A row for lines left out. -/
def leftOut (width : Nat) : Row :=
  [⟨.gutter, "..."⟩, ⟨.plain, spaces width⟩, ⟨.underline, "|"⟩]

/-- The rows of lines inside a range. One line between two is shown, and more are left out. -/
def insideRows (width : Nat) (ls : List Line) : Nat → List Nat → List Row
  | _, [] => []
  | previous, n :: more =>
    let row := fun n =>
      (ls.filter (·.number == n)).map fun l =>
        numbered width l [⟨.plain, " "⟩, ⟨.underline, "|"⟩]
    (if previous + 2 < n then [leftOut width]
      else if previous + 2 = n then row (previous + 1) else []) ++
      row n ++ insideRows width ls n more

/-- Whether the shown text of a line is blank before a mark. It looks at as many characters as the
mark has columns, so at more of them behind wide ones. -/
def Mark.isIndent (m : Mark) : Bool :=
  ((m.line.text.flatMap Text.visible).take m.columns).all Text.isWhiteSpace

/-- A part of several lines, joined by a line at their left. -/
def multiLine (width : Nat) (ls : List Line) (start stop : Mark) : List Row :=
  let head :=
    if start.isIndent then
      [numbered width start.line [⟨.plain, " "⟩, ⟨.underline, "/"⟩]]
    else
      [numbered width start.line [⟨.plain, "  "⟩],
        bar width ++ [⟨.plain, "  "⟩, ⟨.underline, underscores (start.columns + 1) ++ "^"⟩]]
  let shown := shownBetween ls start.line.number stop.line.number ++ [stop.line.number]
  let columns := stop.columns + if stop.beyond then 1 else 0
  head ++ insideRows width ls start.line.number shown ++
    [bar width ++ [⟨.plain, " "⟩, ⟨.underline, "|" ++ underscores (max 1 columns) ++ "^"⟩]]

/-- The rows of a message and of the part of a source that it is about. -/
def snippet (message source : String) (path : Option String) (e : Extent) : List Row :=
  let ls := lines source
  let start := mark ls e.start
  let stop := mark ls e.stop
  let isSingle := e.start == e.stop || start.line.number == stop.line.number
  let width := (toString (if isSingle then start.line.number else stop.line.number)).length
  let column := start.chars + 1 + if start.beyond then 1 else 0
  let place := path.elim [] fun path =>
    [[⟨.plain, spaces width⟩, ⟨.gutter, "--> "⟩,
      ⟨.plain, s!"{path}:{start.line.number}:{column}"⟩]]
  titleRows message ++ place ++ [bar width] ++
    if isSingle then singleLine width start (if e.start == e.stop then start else stop)
    else multiLine width ls start stop

/-- The drawing of the command line. A line has no mark inside a character, so it breaks off where the part
to show begins or ends there. -/
def Drawing.snippets (colored : Bool) : Drawing := fun message source path e =>
  let ls := lines source
  if cutsCharacter ls e.start || (e.start != e.stop && cutsCharacter ls e.stop) then none
  else some ("\n".intercalate ((snippet message source path e).map fun row =>
    String.join (row.map (Piece.paint colored))))

end Diagnostic
end DdlSchema
