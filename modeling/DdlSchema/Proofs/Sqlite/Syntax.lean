import DdlSchema.Proofs.Draft.Last
import DdlSchema.Proofs.Sqlite.Symbol
import Mathlib.Data.List.Forall2

/-! The statements of the dialect as trees: how each is spelled, which of them are valid, and the clause
that each stands for. Nothing here looks at the graph. -/
namespace DdlSchema
namespace Sqlite

/-- At least one item. -/
structure Listing (α : Type) where
  first : α
  more : List α := []
deriving DecidableEq, Repr

inductive TypeArguments where
  | none
  | size (n : Int)
  | precision (n scale : Int)
deriving DecidableEq, Repr

inductive Moment where
  | timestamp
  | date
  | time
deriving DecidableEq, Repr

inductive DefaultValue where
  | null
  | integer (n : Int)
  | string (s : String)
  | current (m : Moment)
deriving DecidableEq, Repr

inductive Attribute where
  | null
  | notNull
  | primaryKey (autoincrement : Bool)
  | default (value : DefaultValue)
deriving DecidableEq, Repr

structure ColumnDef where
  name : String
  type : String
  arguments : TypeArguments := .none
  attributes : List Attribute := []
deriving DecidableEq, Repr

/-- A column name with the direction that is written behind it. -/
structure OrderedName where
  name : String
  direction : Option Direction := none
deriving DecidableEq, Repr

inductive KeyDef where
  | primary (columns : Listing OrderedName)
  | foreign (columns : Listing String) (table : String) (referenced : Listing String)
deriving DecidableEq, Repr

structure ConstraintDef where
  name : Option String := none
  key : KeyDef
deriving DecidableEq, Repr

structure TableDef where
  ifNotExists : Bool := false
  name : String
  columns : Listing ColumnDef
  constraints : List ConstraintDef := []
deriving DecidableEq, Repr

structure IndexDef where
  isUnique : Bool := false
  ifNotExists : Bool := false
  name : String
  table : String
  columns : Listing OrderedName
deriving DecidableEq, Repr

/-- A `CREATE` statement. -/
inductive Definition where
  | table (t : TableDef)
  | index (i : IndexDef)
deriving DecidableEq, Repr

section Spelling

/-- Items, each behind a comma. -/
def commaBefore {α : Type} (f : α → List Symbol) (as : List α) : List Symbol :=
  as.flatMap fun a => .comma :: f a

/-- Items between brackets, with commas between them. -/
def Listing.symbols {α : Type} (f : α → List Symbol) (l : Listing α) : List Symbol :=
  .opening :: (f l.first ++ commaBefore f l.more ++ [.closing])

def Listing.toList {α : Type} (l : Listing α) : List α := l.first :: l.more

def TypeArguments.symbols : TypeArguments → List Symbol
  | none => []
  | size n => [.opening, .integer n, .closing]
  | precision n scale => [.opening, .integer n, .comma, .integer scale, .closing]

def Moment.keyword : Moment → Keyword
  | timestamp => .currentTimestamp
  | date => .currentDate
  | time => .currentTime

def DefaultValue.symbol : DefaultValue → Symbol
  | null => .keyword .null
  | integer n => .integer n
  | string s => .string s
  | current m => .keyword m.keyword

def Attribute.symbols : Attribute → List Symbol
  | null => [.keyword .null]
  | notNull => [.keyword .not, .keyword .null]
  | primaryKey false => [.keyword .primary, .keyword .key]
  | primaryKey true => [.keyword .primary, .keyword .key, .keyword .autoincrement]
  | default value => [.keyword .default, value.symbol]

def ColumnDef.symbols (c : ColumnDef) : List Symbol :=
  .name c.name :: .name c.type :: (c.arguments.symbols ++ c.attributes.flatMap Attribute.symbols)

def directionKeyword : Direction → Keyword
  | .ascending => .asc
  | .descending => .desc

def OrderedName.symbols (n : OrderedName) : List Symbol :=
  .name n.name :: n.direction.toList.map fun d => .keyword (directionKeyword d)

def nameSymbols (s : String) : List Symbol := [.name s]

def KeyDef.symbols : KeyDef → List Symbol
  | primary columns =>
    .keyword .primary :: .keyword .key :: columns.symbols OrderedName.symbols
  | foreign columns table referenced =>
    .keyword .foreign :: .keyword .key :: (columns.symbols nameSymbols ++
      .keyword .references :: .name table :: referenced.symbols nameSymbols)

def ConstraintDef.symbols (c : ConstraintDef) : List Symbol :=
  match c.name with
  | none => c.key.symbols
  | some name => .keyword .constraint :: .name name :: c.key.symbols

def ifNotExistsSymbols : Bool → List Symbol
  | false => []
  | true => [.keyword .ifWord, .keyword .not, .keyword .existsWord]

def TableDef.symbols (t : TableDef) : List Symbol :=
  .keyword .create :: .keyword .table :: (ifNotExistsSymbols t.ifNotExists ++
    .name t.name :: .opening :: (t.columns.first.symbols ++
      (commaBefore ColumnDef.symbols t.columns.more ++
        (commaBefore ConstraintDef.symbols t.constraints ++ [.closing]))))

def IndexDef.symbols (i : IndexDef) : List Symbol :=
  .keyword .create :: ((if i.isUnique then [.keyword .unique] else []) ++
    .keyword .index :: (ifNotExistsSymbols i.ifNotExists ++
      .name i.name :: .keyword .onWord :: .name i.table :: i.columns.symbols OrderedName.symbols))

def Definition.symbols : Definition → List Symbol
  | table t => t.symbols
  | index i => i.symbols

/-- The token lists that spell a statement. -/
def Definition.Spells (s : Definition) (ts : List Token) : Prop :=
  List.Forall₂ Symbol.Matches s.symbols ts

end Spelling

section Validity

def TypeArguments.values : TypeArguments → List Int
  | none => []
  | size n => [n]
  | precision n scale => [n, scale]

/-- Whether a number has 32 bits and no sign. -/
def IsArgument (n : Int) : Prop := 0 ≤ n ∧ n ≤ 0xFFFFFFFF

instance (n : Int) : Decidable (IsArgument n) := inferInstanceAs (Decidable (_ ∧ _))

def Attribute.isPrimaryKey : Attribute → Bool
  | primaryKey _ => true
  | _ => false

/-- Whether a column is marked as the key of its table. -/
def ColumnDef.isMarked (c : ColumnDef) : Bool := c.attributes.any Attribute.isPrimaryKey

def KeyDef.isPrimary : KeyDef → Bool
  | primary _ => true
  | foreign .. => false

@[simp] theorem KeyDef.isPrimary_primary (columns : Listing OrderedName) :
    (primary columns).isPrimary = true := rfl

@[simp] theorem KeyDef.isPrimary_foreign (columns : Listing String) (table : String)
    (referenced : Listing String) : (foreign columns table referenced).isPrimary = false := rfl

/-- How often a table says what its primary key is. -/
def TableDef.keyCount (t : TableDef) : Nat :=
  t.constraints.countP (·.key.isPrimary) + t.columns.toList.countP ColumnDef.isMarked

def TableDef.arguments (t : TableDef) : List Int :=
  t.columns.toList.flatMap fun c => c.arguments.values

def Definition.IsValid : Definition → Prop
  | table t => (∀ n ∈ t.arguments, IsArgument n) ∧ t.keyCount ≤ 1
  | index _ => True

instance (s : Definition) : Decidable s.IsValid :=
  match s with
  | .table _ => inferInstanceAs (Decidable (_ ∧ _))
  | .index _ => inferInstanceAs (Decidable True)

end Validity

section Meaning

/-- The number that a valid type argument stands for. -/
def argument (n : Int) : UInt32 := .ofNat n.toNat

def ColumnDef.typeDef (c : ColumnDef) : TypeDef :=
  match c.arguments with
  | .none => { name := c.type }
  | .size n => { name := c.type, size := some (argument n) }
  | .precision n scale =>
    { name := c.type, precision := some (argument n), scale := some (argument scale) }

/-- What an attribute says of nullability. -/
def Attribute.nullable? : Attribute → Option Bool
  | null => some true
  | notNull => some false
  | _ => none

def DefaultValue.text : DefaultValue → String
  | null => "NULL"
  | integer n => toString n
  | string s => quoteString s
  | current m => m.keyword.text

def Attribute.defaultText? : Attribute → Option String
  | default value => some value.text
  | _ => none

/-- The column of a definition. The last attribute of a kind decides. -/
def ColumnDef.column (c : ColumnDef) : Column where
  name := c.name
  type := c.typeDef
  isNullable := (c.attributes.filterMap Attribute.nullable?).getLast?.getD true
  identity := if .primaryKey true ∈ c.attributes then some ⟨"1", "1"⟩ else none
  defaultText := (c.attributes.filterMap Attribute.defaultText?).getLast?
  properties := .empty

def ConstraintDef.primaryKey? (c : ConstraintDef) : Option PrimaryKey :=
  match c.key with
  | .primary columns => some ⟨c.name, columns.toList.map (·.name)⟩
  | .foreign .. => none

def ConstraintDef.foreignKey? (c : ConstraintDef) : Option ForeignKey :=
  match c.key with
  | .primary _ => none
  | .foreign columns table referenced => some ⟨c.name, columns.toList, table, referenced.toList⟩

section Keys

variable (name : Option String) (own : Listing OrderedName) (columns : Listing String)
  (table : String) (referenced : Listing String)

@[simp] theorem primaryKey?_primary :
    (ConstraintDef.mk name (.primary own)).primaryKey? =
      some ⟨name, own.toList.map (·.name)⟩ := rfl

@[simp] theorem foreignKey?_primary :
    (ConstraintDef.mk name (.primary own)).foreignKey? = none := rfl

@[simp] theorem primaryKey?_foreign :
    (ConstraintDef.mk name (.foreign columns table referenced)).primaryKey? = none := rfl

@[simp] theorem foreignKey?_foreign :
    (ConstraintDef.mk name (.foreign columns table referenced)).foreignKey? =
      some ⟨name, columns.toList, table, referenced.toList⟩ := rfl

end Keys

/-- The key of the first column that is marked. -/
def TableDef.inlineKey? (t : TableDef) : Option PrimaryKey :=
  (t.columns.toList.find? ColumnDef.isMarked).map fun c => ⟨none, [c.name]⟩

def TableDef.table (t : TableDef) : Table where
  name := t.name
  columns := t.columns.toList.map ColumnDef.column
  primaryKey := (t.constraints.findSome? ConstraintDef.primaryKey?).or t.inlineKey?
  foreignKeys := t.constraints.filterMap ConstraintDef.foreignKey?
  indexes := []
  properties := .empty

/-- An index column descends where it says so. -/
def OrderedName.indexColumn (n : OrderedName) : IndexColumn :=
  ⟨n.name, if n.direction = some .descending then .descending else .ascending⟩

def IndexDef.index (i : IndexDef) : Index where
  name := i.name
  table := i.table
  isUnique := i.isUnique
  columns := i.columns.toList.map OrderedName.indexColumn

/-- The clause that a statement stands for. -/
def Definition.clause : Definition → Clause
  | table t => .table t.table
  | index i => .index i.index

end Meaning

end Sqlite
end DdlSchema
