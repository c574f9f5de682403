import DdlSchema.Draft

/-! Drafts with a known last clause, and what the changes to that clause do. -/
namespace DdlSchema

def Table.addColumn (t : Table) (c : Column) : Table := { t with columns := t.columns ++ [c] }

def Table.addForeignKey (t : Table) (k : ForeignKey) : Table :=
  { t with foreignKeys := t.foreignKeys ++ [k] }

def Index.addColumn (i : Index) (c : IndexColumn) : Index := { i with columns := i.columns ++ [c] }

namespace Properties

variable (key value : String)

@[simp] theorem get?_empty : empty.get? key = none := rfl

@[simp] theorem erase_empty : empty.erase key = empty := rfl

@[simp] theorem erase_insert_empty : (empty.insert key value).erase key = empty := by
  simp [insert, erase, empty, set]

theorem set_set (value' : String) (es : List (String × String)) :
    set key value' (set key value es) = set key value' es := by
  induction es with
  | nil => simp [set]
  | cons e es ih =>
    by_cases h : e.1 = key
    · simp [set, h]
    · simp [set, h, ih]

@[simp] theorem insert_insert (p : Properties) (value' : String) :
    (p.insert key value).insert key value' = p.insert key value' := by
  simp [insert, set_set]

end Properties

namespace Draft

variable (d : Draft) (t : Table) (i : Index)

@[simp] theorem clauses_tick : d.tick.clauses = d.clauses := rfl

@[simp] theorem replaceLast_add (c c' : Clause) : (d.add c).replaceLast c' = d.add c' := by
  simp [replaceLast, add]

@[simp] theorem currentTable_add : (d.add (.table t)).currentTable = .ok t := by
  simp [currentTable, last?, add]

@[simp] theorem currentIndex_add : (d.add (.index i)).currentIndex = .ok i := by
  simp [currentIndex, last?, add]

@[simp] theorem onTable_add (f : Table → Table) :
    (d.add (.table t)).onTable f = .ok (d.add (.table (f t))) := by
  simp [onTable, bind, Except.bind]

@[simp] theorem onIndex_add (f : Index → Index) :
    (d.add (.index i)).onIndex f = .ok (d.add (.index (f i))) := by
  simp [onIndex, bind, Except.bind]

@[simp] theorem onColumn_add (c : Column) (f : Column → Column) :
    (d.add (.table (t.addColumn c))).onColumn f = .ok (d.add (.table (t.addColumn (f c)))) := by
  simp [onColumn, currentColumn, require, Table.addColumn, bind, Except.bind]

@[simp] theorem onForeignKey_add (k : ForeignKey) (f : ForeignKey → ForeignKey) :
    (d.add (.table (t.addForeignKey k))).onForeignKey f =
      .ok (d.add (.table (t.addForeignKey (f k)))) := by
  simp [onForeignKey, currentForeignKey, require, Table.addForeignKey, bind, Except.bind]

@[simp] theorem onIndexColumn_add (c : IndexColumn) (f : IndexColumn → IndexColumn) :
    (d.add (.index (i.addColumn c))).onIndexColumn f = .ok (d.add (.index (i.addColumn (f c)))) := by
  simp [onIndexColumn, currentIndexColumn, require, Index.addColumn, bind, Except.bind]

theorem onPrimaryKey_add {k : PrimaryKey} (h : t.primaryKey = some k)
    (f : PrimaryKey → PrimaryKey) :
    (d.add (.table t)).onPrimaryKey f =
      .ok (d.add (.table { t with primaryKey := some (f k) })) := by
  simp [onPrimaryKey, currentPrimaryKey, require, h, bind, Except.bind]

end Draft
end DdlSchema
