import DdlSchema.Json.Basic

/-! The text of a JSON value: on one line, or with one item a line. -/
namespace DdlSchema
namespace Json

/-- What stands before an item at a depth, and between a name and its value. -/
structure Layout where
  newline : Nat → List Char
  colon : List Char

namespace Layout

def compact : Layout := ⟨fun _ => [], [':']⟩

/-- Two spaces a level. -/
def pretty : Layout := ⟨fun depth => '\n' :: List.replicate (2 * depth) ' ', [':', ' ']⟩

end Layout

def hexDigit (n : Nat) : Char := if n < 10 then .ofNat (48 + n) else .ofNat (87 + n)

/-- Quotes, backslashes and characters below the space are escaped. -/
def escape (c : Char) : List Char :=
  if c = '"' then ['\\', '"']
  else if c = '\\' then ['\\', '\\']
  else if c = '\n' then ['\\', 'n']
  else if c = '\r' then ['\\', 'r']
  else if c = '\t' then ['\\', 't']
  else if c = '\x08' then ['\\', 'b']
  else if c = '\x0C' then ['\\', 'f']
  else if c.toNat < 0x20 then
    ['\\', 'u', '0', '0', hexDigit (c.toNat / 16), hexDigit (c.toNat % 16)]
  else [c]

def quoted (s : String) : List Char := '"' :: s.toList.flatMap escape ++ ['"']

mutual

/-- The text of a value whose items stand at `depth + 1`. -/
def write (l : Layout) (depth : Nat) : Json → List Char
  | null => ['n', 'u', 'l', 'l']
  | bool true => ['t', 'r', 'u', 'e']
  | bool false => ['f', 'a', 'l', 's', 'e']
  | int i => (toString i).toList
  | str s => quoted s
  | arr [] => ['[', ']']
  | arr (j :: js) =>
    '[' :: (l.newline (depth + 1) ++ write l (depth + 1) j ++ writeItems l (depth + 1) js ++
      l.newline depth ++ [']'])
  | obj [] => ['{', '}']
  | obj ((k, j) :: fs) =>
    '{' :: (l.newline (depth + 1) ++ quoted k ++ l.colon ++ write l (depth + 1) j ++
      writeFields l (depth + 1) fs ++ l.newline depth ++ ['}'])

/-- The items after the first. -/
def writeItems (l : Layout) (depth : Nat) : List Json → List Char
  | [] => []
  | j :: js => ',' :: (l.newline depth ++ write l depth j ++ writeItems l depth js)

/-- The fields after the first. -/
def writeFields (l : Layout) (depth : Nat) : List (String × Json) → List Char
  | [] => []
  | (k, j) :: fs =>
    ',' :: (l.newline depth ++ quoted k ++ l.colon ++ write l depth j ++ writeFields l depth fs)

end

def text (l : Layout) (j : Json) : String := String.ofList (write l 0 j)

def compact (j : Json) : String := text .compact j

def pretty (j : Json) : String := text .pretty j

end Json
end DdlSchema
