import DdlSchema.Text.Escape
import DdlSchema.Text.Extent

/-! Molds: the forms of a grammar text as a tree, before molds of one name become one node. -/
namespace DdlSchema

inductive MoldKind where
  | idle
  | finish
  | identifier
  | integer
  | string
  /-- One of several words; none where a form refers to another one by its name. -/
  | multiWord (words : List String)
  /-- A keyword or punctuation as it is written. -/
  | literal (text : String)
deriving DecidableEq, Repr, Inhabited

namespace MoldKind

def head : MoldKind → String
  | idle => "IDLE"
  | finish => "END"
  | identifier => "IDENTIFIER"
  | integer => "INTEGER"
  | string => "STRING"
  | multiWord _ => "MULTI-WORD"
  | literal text => text

/-- The kind of a head symbol. -/
def ofHead? : String → Option MoldKind
  | "IDLE" => some idle
  | "END" => some finish
  | "IDENTIFIER" => some identifier
  | "INTEGER" => some integer
  | "STRING" => some string
  | "MULTI-WORD" => some (multiWord [])
  | _ => none

def text : MoldKind → String
  | literal text => Text.quoted text
  | multiWord (w :: ws) => "MULTI-WORD " ++ Text.quotedList (w :: ws)
  | kind => kind.head

end MoldKind

structure Mold where
  kind : MoldKind
  name : Option String
  /-- What may follow, in the order of the text. -/
  children : List Mold
  /-- The form in the grammar text, with its parentheses. -/
  extent : Extent
deriving Repr, Inhabited

namespace Mold

mutual

def decEq : (m m' : Mold) → Decidable (m = m')
  | ⟨kind, name, children, extent⟩, ⟨kind', name', children', extent'⟩ =>
    have := decEqAll children children'
    decidable_of_iff (kind = kind' ∧ name = name' ∧ children = children' ∧ extent = extent')
      (Mold.mk.injEq ..).to_iff.symm

def decEqAll : (ms ms' : List Mold) → Decidable (ms = ms')
  | [], [] => .isTrue rfl
  | [], _ :: _ | _ :: _, [] => .isFalse nofun
  | m :: ms, m' :: ms' =>
    have := decEq m m'
    have := decEqAll ms ms'
    decidable_of_iff (m = m' ∧ ms = ms') List.cons_eq_cons.symm

end

instance : DecidableEq Mold := decEq

mutual

/-- The molds of a tree in pre-order, each with its depth. -/
def outline (depth : Nat) : Mold → List (Nat × Mold)
  | ⟨kind, name, children, extent⟩ =>
    (depth, ⟨kind, name, children, extent⟩) :: outlineAll (depth + 1) children

def outlineAll (depth : Nat) : List Mold → List (Nat × Mold)
  | [] => []
  | m :: ms => outline depth m ++ outlineAll depth ms

end

def preorder (m : Mold) : List Mold := (m.outline 0).map Prod.snd

end Mold
end DdlSchema
