/-! Places in a text: byte offsets, and lines and columns counted in characters. -/
namespace DdlSchema

/-- A byte range. -/
structure Extent where
  start : Nat
  stop : Nat
deriving DecidableEq, Repr, Inhabited

namespace Extent

def size (e : Extent) : Nat := e.stop - e.start

def isEmpty (e : Extent) : Bool := e.start == e.stop

def shift (n : Nat) (e : Extent) : Extent := ⟨e.start + n, e.stop + n⟩

end Extent

/-- Line and column, both from 1. They have 32 bits and begin again at 0 behind the greatest number. -/
structure Position where
  line : UInt32
  column : UInt32
deriving DecidableEq, Repr, Inhabited

namespace Position

def start : Position := ⟨1, 1⟩

def next (p : Position) (c : Char) : Position :=
  if c = '\n' then ⟨p.line + 1, 1⟩ else ⟨p.line, p.column + 1⟩

/-- The position behind a text that begins at `p`. -/
def after (p : Position) (cs : List Char) : Position := cs.foldl next p

@[simp] theorem after_nil (p : Position) : p.after [] = p := rfl

@[simp] theorem after_append (p : Position) (cs ds : List Char) :
    p.after (cs ++ ds) = (p.after cs).after ds := List.foldl_append

def text (p : Position) : String := s!"{p.line}:{p.column}"

end Position

/-- A byte range with the position of its first character. -/
structure Span extends Extent where
  position : Position
deriving DecidableEq, Repr, Inhabited

/-- The bytes that characters take in UTF-8. -/
def byteSize : List Char → Nat
  | [] => 0
  | c :: cs => c.utf8Size + byteSize cs

@[simp] theorem byteSize_nil : byteSize [] = 0 := rfl

@[simp] theorem byteSize_cons (c : Char) (cs : List Char) :
    byteSize (c :: cs) = c.utf8Size + byteSize cs := rfl

@[simp] theorem byteSize_append (cs ds : List Char) :
    byteSize (cs ++ ds) = byteSize cs + byteSize ds := by
  induction cs with
  | nil => simp
  | cons c cs ih => simp [ih, Nat.add_assoc]

theorem byteSize_pos {cs : List Char} (h : cs ≠ []) : 0 < byteSize cs := by
  obtain ⟨c, cs, rfl⟩ := List.exists_cons_of_ne_nil h
  exact Nat.lt_of_lt_of_le c.utf8Size_pos (Nat.le_add_right c.utf8Size (byteSize cs))

/-- Where the reading of a text stands. -/
structure Place where
  offset : Nat
  position : Position
deriving DecidableEq, Repr, Inhabited

namespace Place

def start : Place := ⟨0, .start⟩

def after (p : Place) (cs : List Char) : Place := ⟨p.offset + byteSize cs, p.position.after cs⟩

/-- The extent of `cs` read from `p` on. -/
def span (p : Place) (cs : List Char) : Span := ⟨⟨p.offset, p.offset + byteSize cs⟩, p.position⟩

@[simp] theorem after_nil (p : Place) : p.after [] = p := rfl

@[simp] theorem after_append (p : Place) (cs ds : List Char) :
    p.after (cs ++ ds) = (p.after cs).after ds := by simp [after, Nat.add_assoc]

end Place
end DdlSchema
