/-! JSON values with whole numbers. Objects keep the order of their fields. -/
namespace DdlSchema

inductive Json where
  | null
  | bool (value : Bool)
  | int (value : Int)
  | str (value : String)
  | arr (items : List Json)
  | obj (fields : List (String × Json))
deriving Inhabited, BEq, Repr

namespace Json

def nat (n : Nat) : Json := int n

def strs (texts : List String) : Json := arr (texts.map str)

/-- A value that may be missing, with null for none. -/
def option {α : Type} (f : α → Json) : Option α → Json
  | none => null
  | some a => f a

/-- A field, left out for none. -/
def field? {α : Type} (name : String) (f : α → Json) : Option α → List (String × Json)
  | none => []
  | some a => [(name, f a)]

/-- A field, left out for the empty list. -/
def fields? {α : Type} (name : String) (f : α → Json) : List α → List (String × Json)
  | [] => []
  | a :: as => [(name, arr ((a :: as).map f))]

/-- The first field of that name. -/
def get? (name : String) : Json → Option Json
  | obj fields => fields.lookup name
  | _ => none

/-- The first field of that name, where null counts as missing. -/
def find? (name : String) (j : Json) : Option Json :=
  match j.get? name with
  | some null => none
  | found => found

def str? : Json → Option String
  | str s => some s
  | _ => none

def int? : Json → Option Int
  | int i => some i
  | _ => none

def nat? : Json → Option Nat
  | int (.ofNat n) => some n
  | _ => none

def bool? : Json → Option Bool
  | bool b => some b
  | _ => none

def arr? : Json → Option (List Json)
  | arr items => some items
  | _ => none

def obj? : Json → Option (List (String × Json))
  | obj fields => some fields
  | _ => none

end Json
end DdlSchema
