import DdlSchema.Proofs.Sqlite.Rewrite
import DdlSchema.Proofs.Token.Lexed

/-! Statements that stand in a text: their names are not empty and their numbers have 64 bits. -/
namespace DdlSchema
namespace Sqlite

/-- Whether a token of a text can be the symbol. -/
def Symbol.IsWritable : Symbol → Prop
  | name s => s ≠ ""
  | integer n => Lexer.IsInt64 n
  | _ => True

theorem Symbol.isWritable_ofKind {k : TokenKind} (h : k.IsLexed) : (ofKind k).IsWritable := by
  cases k with
  | word s =>
    rw [ofKind]
    cases Keyword.ofText? s with
    | none => exact h
    | some k => trivial
  | punctuation c => unfold ofKind; split <;> trivial
  | integer n => exact h
  | string s => trivial
  | identifier s delimited =>
    cases delimited with
    | true => exact h
    | false =>
      rw [ofKind]
      cases Keyword.ofText? s with
      | none => exact h
      | some k => trivial

/-- The names that a key holds. -/
def KeyDef.names : KeyDef → List String
  | primary columns => columns.toList.map (·.name)
  | foreign columns table referenced => columns.toList ++ table :: referenced.toList

def ConstraintDef.names (c : ConstraintDef) : List String := c.name.toList ++ c.key.names

structure ColumnDef.IsWritable (c : ColumnDef) : Prop where
  name_ne : c.name ≠ ""
  type_ne : c.type ≠ ""
  default : ∀ v ∈ c.default?, v.symbol.IsWritable
  arguments : ∀ n ∈ c.arguments.values, IsArgument n

structure TableDef.IsWritable (t : TableDef) : Prop where
  name_ne : t.name ≠ ""
  columns : ∀ c ∈ t.columns.toList, c.IsWritable
  constraints : ∀ c ∈ t.constraints, ∀ n ∈ c.names, n ≠ ""

structure IndexDef.IsWritable (i : IndexDef) : Prop where
  name_ne : i.name ≠ ""
  table_ne : i.table ≠ ""
  columns : ∀ n ∈ i.columns.toList, n.name ≠ ""

section Membership

theorem Listing.mem_symbols {α : Type} {f : α → List Symbol} {l : Listing α} {a : α} {x : Symbol}
    (ha : a ∈ l.toList) (hx : x ∈ f a) : x ∈ l.symbols f := by
  rcases List.mem_cons.1 ha with rfl | ha
  · simp [symbols, hx]
  · have hmore : x ∈ commaBefore f l.more :=
      List.mem_flatMap.2 ⟨a, ha, List.mem_cons_of_mem .comma hx⟩
    simp [symbols, hmore]

theorem ColumnDef.mem_symbols_of_default? {c : ColumnDef} {v : DefaultValue} (h : c.default? = some v) :
    v.symbol ∈ c.symbols := by
  have hmem := List.mem_of_getLast? h
  obtain ⟨a, ha, hv⟩ := List.mem_filterMap.1 hmem
  have hattribute : v.symbol ∈ a.symbols := by
    cases a with
    | default value =>
      obtain rfl : value = v := Option.some.inj hv
      simp [Attribute.symbols]
    | _ => cases hv
  have hattributes : v.symbol ∈ c.attributes.flatMap Attribute.symbols :=
    List.mem_flatMap.2 ⟨a, ha, hattribute⟩
  simp [symbols, hattributes]

theorem KeyDef.mem_symbols {k : KeyDef} {n : String} (h : n ∈ k.names) : .name n ∈ k.symbols := by
  cases k with
  | primary columns =>
    obtain ⟨c, hc, rfl⟩ := List.mem_map.1 h
    have hlisting : .name c.name ∈ columns.symbols OrderedName.symbols :=
      Listing.mem_symbols hc List.mem_cons_self
    simp [symbols, hlisting]
  | foreign columns table referenced =>
    have hlisting (l : Listing String) (hl : n ∈ l.toList) : .name n ∈ l.symbols nameSymbols :=
      Listing.mem_symbols hl List.mem_cons_self
    rcases List.mem_append.1 h with hc | hr
    · simp [symbols, hlisting columns hc]
    · rcases List.mem_cons.1 hr with rfl | hr
      · simp [symbols]
      · simp [symbols, hlisting referenced hr]

theorem ConstraintDef.mem_symbols {c : ConstraintDef} {n : String} (h : n ∈ c.names) :
    .name n ∈ c.symbols := by
  obtain ⟨name, key⟩ := c
  rcases List.mem_append.1 h with hname | hkey
  · obtain rfl : name = some n := Option.mem_toList.1 hname
    simp [symbols]
  · have hmem := KeyDef.mem_symbols hkey
    cases name <;> simp [symbols, hmem]

theorem TableDef.mem_symbols_of_column {t : TableDef} {c : ColumnDef} {x : Symbol}
    (hc : c ∈ t.columns.toList) (hx : x ∈ c.symbols) : x ∈ t.symbols := by
  rcases List.mem_cons.1 hc with rfl | hc
  · simp [symbols, hx]
  · have hmore : x ∈ commaBefore ColumnDef.symbols t.columns.more :=
      List.mem_flatMap.2 ⟨c, hc, List.mem_cons_of_mem .comma hx⟩
    simp [symbols, hmore]

theorem TableDef.mem_symbols_of_constraint {t : TableDef} {c : ConstraintDef} {x : Symbol}
    (hc : c ∈ t.constraints) (hx : x ∈ c.symbols) : x ∈ t.symbols := by
  have hmore : x ∈ commaBefore ConstraintDef.symbols t.constraints :=
    List.mem_flatMap.2 ⟨c, hc, List.mem_cons_of_mem .comma hx⟩
  simp [symbols, hmore]

end Membership

section Writable

theorem TableDef.isWritable {t : TableDef} (hvalid : (Definition.table t).IsValid)
    (h : ∀ x ∈ t.symbols, x.IsWritable) : t.IsWritable where
  name_ne := h (.name t.name) (by simp [symbols])
  columns := by
    intro c hc
    have hsymbol (x : Symbol) (hx : x ∈ c.symbols) : x.IsWritable :=
      h x (mem_symbols_of_column hc hx)
    refine ⟨hsymbol (.name c.name) (by simp [ColumnDef.symbols]),
      hsymbol (.name c.type) (by simp [ColumnDef.symbols]), fun v hv => ?_, fun n hn => ?_⟩
    · exact hsymbol _ (ColumnDef.mem_symbols_of_default? hv)
    · exact hvalid.1 n (List.mem_flatMap.2 ⟨c, hc, hn⟩)
  constraints := by
    intro c hc n hn
    exact h (.name n) (mem_symbols_of_constraint hc (ConstraintDef.mem_symbols hn))

theorem IndexDef.isWritable {i : IndexDef} (h : ∀ x ∈ i.symbols, x.IsWritable) : i.IsWritable where
  name_ne := h (.name i.name) (by simp [symbols])
  table_ne := h (.name i.table) (by simp [symbols])
  columns := by
    intro n hn
    have hlisting : .name n.name ∈ i.columns.symbols OrderedName.symbols :=
      Listing.mem_symbols hn List.mem_cons_self
    exact h (.name n.name) (by simp [symbols, hlisting])

end Writable

section Keys

theorem KeyDef.symbols_ofNames (names : Listing String) :
    (ofNames names).symbols = .keyword .primary :: .keyword .key :: names.symbols nameSymbols := by
  rw [ofNames, symbols, Listing.symbols_map]
  rfl

/-- The key that is printed has a name and columns that the statement has. -/
theorem TableDef.IsWritable.keyConstraint? {t : TableDef} (ht : t.IsWritable) {c : ConstraintDef}
    (h : t.keyConstraint? = some c) : ∃ name names, c = ⟨name, .ofNames names⟩ ∧
      (∀ n ∈ name, n ≠ "") ∧ ∀ n ∈ names.toList, n ≠ "" := by
  rcases Option.or_eq_some_iff.1 h with h | ⟨-, h⟩
  · obtain ⟨k, hk, rfl⟩ := Option.map_eq_some_iff.1 h
    have hnames := ht.constraints k (List.mem_of_find?_eq_some hk)
    have hprimary := List.find?_some hk
    obtain ⟨name, columns | ⟨columns, table, referenced⟩⟩ := k
    · refine ⟨name, columns.map (·.name), rfl, fun n hn => hnames n ?_, fun n hn => hnames n ?_⟩
      · exact List.mem_append_left _ (Option.mem_toList.2 hn)
      · exact List.mem_append_right _ hn
    · cases hprimary
  · obtain ⟨k, hk, rfl⟩ := Option.map_eq_some_iff.1 h
    have hname := (ht.columns k (List.mem_of_find?_eq_some hk)).name_ne
    refine ⟨none, ⟨k.name, []⟩, rfl, nofun, fun n hn => ?_⟩
    rwa [List.mem_singleton.1 hn]

end Keys

end Sqlite
end DdlSchema
