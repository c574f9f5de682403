import DdlSchema.Text.Fold

/-! The schema objects that statements define: tables with their keys, and indexes. -/
namespace DdlSchema

/-- Named texts, each name once, in the order in which they were first set. -/
structure Properties where
  entries : List (String × String)
  nodup : (entries.map Prod.fst).Nodup
deriving DecidableEq

namespace Properties

def empty : Properties := ⟨[], List.nodup_nil⟩

instance : Inhabited Properties := ⟨empty⟩

instance : Repr Properties := ⟨fun p => reprPrec p.entries⟩

def get? (p : Properties) (key : String) : Option String := p.entries.lookup key

/-- Sets a key in its old place, or at the end when it is new. -/
def set (key value : String) : List (String × String) → List (String × String)
  | [] => [(key, value)]
  | (k, v) :: es => if k = key then (k, value) :: es else (k, v) :: set key value es

theorem mem_keys_set {key value x : String} {es : List (String × String)} :
    x ∈ (set key value es).map Prod.fst ↔ x = key ∨ x ∈ es.map Prod.fst := by
  induction es with
  | nil => simp [set]
  | cons e es ih =>
    by_cases h : e.1 = key
    · simp [set, h]
    · simp [set, h, ih, or_left_comm]

theorem nodup_set {key value : String} {es : List (String × String)}
    (h : (es.map Prod.fst).Nodup) : ((set key value es).map Prod.fst).Nodup := by
  induction es with
  | nil => simp [set]
  | cons e es ih =>
    rw [List.map_cons, List.nodup_cons] at h
    simp only [set]
    split
    · simpa using h
    · rw [List.map_cons, List.nodup_cons, mem_keys_set]
      exact ⟨fun hx => hx.elim (by assumption) h.1, ih h.2⟩

def insert (p : Properties) (key value : String) : Properties :=
  ⟨set key value p.entries, nodup_set p.nodup⟩

def erase (p : Properties) (key : String) : Properties :=
  ⟨p.entries.filter fun e => e.1 != key,
    p.nodup.sublist (List.filter_sublist.map Prod.fst)⟩

theorem lookup_set (key value : String) (es : List (String × String)) :
    (set key value es).lookup key = some value := by
  induction es with
  | nil => simp [set]
  | cons e es ih =>
    obtain ⟨k, v⟩ := e
    by_cases h : k = key
    · simp [set, h]
    · have hk : (key == k) = false := by simpa using Ne.symm h
      simpa [set, h, List.lookup_cons, hk] using ih

@[simp] theorem get?_insert (p : Properties) (key value : String) :
    (p.insert key value).get? key = some value := lookup_set key value p.entries

@[simp] theorem get?_erase (p : Properties) (key : String) : (p.erase key).get? key = none := by
  simp only [get?, erase, List.lookup_eq_none_iff, List.mem_filter, bne_iff_ne]
  exact fun e h => by simpa using Ne.symm h.2

end Properties

/-- A column type: `name`, `name(size)` or `name(precision, scale)`. -/
structure TypeDef where
  name : String := ""
  size : Option UInt32 := none
  precision : Option UInt32 := none
  scale : Option UInt32 := none
deriving DecidableEq, Repr, Inhabited

namespace TypeDef

def text (t : TypeDef) : String :=
  match t.size, t.precision, t.scale with
  | some size, _, _ => s!"{t.name}({size})"
  | none, some precision, some scale => s!"{t.name}({precision}, {scale})"
  | none, some precision, none => s!"{t.name}({precision})"
  | none, none, _ => t.name

end TypeDef

/-- How a column counts up, as texts. -/
structure Identity where
  seed : String
  increment : String
deriving DecidableEq, Repr, Inhabited

structure Column where
  name : String
  type : TypeDef := {}
  isNullable : Bool := true
  identity : Option Identity := none
  /-- The default value as it is written in a statement. -/
  defaultText : Option String := none
  properties : Properties := .empty
deriving DecidableEq, Repr, Inhabited

structure PrimaryKey where
  name : Option String := none
  columns : List String := []
deriving DecidableEq, Repr, Inhabited

/-- The columns pair with the referenced columns by position. -/
structure ForeignKey where
  name : Option String := none
  columns : List String := []
  table : String := ""
  referenced : List String := []
deriving DecidableEq, Repr, Inhabited

inductive Direction where
  | ascending
  | descending
deriving DecidableEq, Repr, Inhabited

structure IndexColumn where
  name : String
  direction : Direction := .ascending
deriving DecidableEq, Repr, Inhabited

structure Index where
  name : String := ""
  table : String := ""
  isUnique : Bool
  columns : List IndexColumn := []
deriving DecidableEq, Repr, Inhabited

structure Table where
  name : String := ""
  columns : List Column := []
  primaryKey : Option PrimaryKey := none
  foreignKeys : List ForeignKey := []
  indexes : List Index := []
  properties : Properties := .empty
deriving DecidableEq, Repr, Inhabited

/-- What one statement defines. -/
inductive Clause where
  | table (table : Table)
  | index (index : Index)
deriving DecidableEq, Repr, Inhabited

namespace Direction

/-- The keyword of a direction. -/
def keyword : Direction → String
  | ascending => "ASC"
  | descending => "DESC"

def name : Direction → String
  | ascending => "Ascending"
  | descending => "Descending"

/-- The direction of a keyword in any case. -/
def ofKeyword? (text : String) : Option Direction :=
  if Text.sameWord text "asc" then some ascending
  else if Text.sameWord text "desc" then some descending
  else none

/-- What is said of a keyword that no direction has. -/
def unknownMessage (text : String) : String := s!"unknown sort direction '{text}'"

end Direction

namespace Table

def column? (t : Table) (name : String) : Option Column := t.columns.find? (·.name == name)

/-- The tables that the foreign keys name, each once, in the order of its first key. -/
def referenced (t : Table) : List String := (t.foreignKeys.map (·.table)).eraseDups

end Table

namespace Clause

def kindName : Clause → String
  | table _ => "table"
  | index _ => "index"

def name : Clause → String
  | table t => t.name
  | index i => i.name

end Clause
end DdlSchema
