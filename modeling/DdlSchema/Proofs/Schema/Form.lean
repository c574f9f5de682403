import DdlSchema.Proofs.Json.Read
import DdlSchema.Schema.Form

/-! The JSON form of schema objects read back. A part that is left out comes back as what it was left out
for, and properties keep their order, so that no two clauses have one form. -/
namespace DdlSchema

namespace Json

variable {α : Type} {f : α → Json} {read : Json → Option α} {j : Json} {name : String}

@[simp] theorem get?_obj (fields : List (String × Json)) : (obj fields).get? name =
    fields.lookup name := rfl

@[simp] theorem lookup_cons (key : String) (v : Json) (fields : List (String × Json)) :
    List.lookup key ((name, v) :: fields) =
      if key = name then some v else fields.lookup key := by
  by_cases h : key = name
  · simp [h]
  · have hne : (key == name) = false := by simpa using h
    rw [List.lookup_cons, hne, if_neg h]

@[simp] theorem lookup_field? (key : String) (a : Option α) :
    (field? name f a).lookup key = if key = name then a.map f else none := by
  cases a <;> simp [field?]

@[simp] theorem lookup_fields? (key : String) (as : List α) :
    (fields? name f as).lookup key =
      if key = name ∧ as ≠ [] then some (arr (as.map f)) else none := by
  cases as <;> simp [fields?]

theorem mapM_map (hread : ∀ a, read (f a) = some a) (as : List α) :
    (as.map f).mapM read = some as := by
  induction as with
  | nil => rfl
  | cons a as ih => simp [hread, ih]

theorem optional?_eq (hread : ∀ a, read (f a) = some a) (hnull : ∀ a, f a ≠ null) {a : Option α}
    (h : j.get? name = a.map f) : j.optional? name read = some a := by
  cases a with
  | none => simp [optional?, find?, h]
  | some a =>
    have hfind : j.find? name = some (f a) := by
      rw [find?, h]
      split
      case h_1 heq => exact absurd (Option.some.inj heq) (hnull a)
      case h_2 => rfl
    simp [optional?, hfind, hread]

theorem list?_eq (hread : ∀ a, read (f a) = some a) {as : List α}
    (h : j.get? name = if as = [] then none else some (arr (as.map f))) :
    j.list? name read = some as := by
  cases as with
  | nil => simp [list?, find?, h]
  | cons a as => simp [list?, find?, h, arr?, mapM_map hread, hread]

theorem items?_eq (hread : ∀ a, read (f a) = some a) {as : List α}
    (h : j.get? name = some (arr (as.map f))) : j.items? name read = some as := by
  simp [items?, h, arr?, mapM_map hread]

theorem str?_str (s : String) : str? (str s) = some s := rfl

theorem word?_word (n : UInt32) : word? (word n) = some n := by
  have hn : n.toNat < UInt32.size := n.toNat_lt
  have hnat : nat? (word n) = some n.toNat := rfl
  simp [word?, hnat, hn]

end Json

open Json

namespace Properties

theorem set_of_not_mem {key value : String} {es : List (String × String)}
    (h : key ∉ es.map Prod.fst) : set key value es = es ++ [(key, value)] := by
  induction es with
  | nil => rfl
  | cons e es ih =>
    rw [List.map_cons, List.mem_cons, not_or] at h
    simp [set, Ne.symm h.1, ih h.2]

/-- Properties that are set one after another keep their order. -/
theorem foldlM_insert (p : Properties) (es : List (String × String))
    (h : ((p.entries ++ es).map Prod.fst).Nodup) :
    (es.map fun e => (e.1, str e.2)).foldlM (fun (p : Properties) (e : String × Json) => do
      some (p.insert e.1 (← e.2.str?))) p = some ⟨p.entries ++ es, h⟩ := by
  induction es generalizing p with
  | nil => simp
  | cons e es ih =>
    have hnot : e.1 ∉ p.entries.map Prod.fst := by
      rw [List.map_append, List.map_cons] at h
      intro hmem
      exact (List.nodup_append.1 h).2.2 _ hmem _ List.mem_cons_self rfl
    have hset : p.entries ++ e :: es = (p.insert e.1 e.2).entries ++ es := by
      simp [insert, set_of_not_mem hnot]
    have hrest := ih (p.insert e.1 e.2) (by rwa [← hset])
    simpa [str?, hset] using hrest

theorem ofJson?_toJson (p : Properties) : ofJson? p.toJson = some p :=
  foldlM_insert .empty p.entries p.nodup

theorem ofField?_eq {j : Json} {p : Properties}
    (h : j.get? "properties" = if p.entries = [] then none else some p.toJson) :
    ofField? j = some p := by
  by_cases hempty : p.entries = []
  · obtain ⟨entries, hnodup⟩ := p
    obtain rfl : entries = [] := hempty
    simp [ofField?, find?, h, empty]
  · rw [if_neg hempty] at h
    have hfind : j.find? "properties" = some p.toJson := by
      rw [find?, h]
      rfl
    rw [ofField?, hfind]
    exact ofJson?_toJson p

end Properties

@[simp] theorem lookup_properties (key : String) (p : Properties) : p.field.lookup key =
    if key = "properties" ∧ p.entries ≠ [] then some p.toJson else none := by
  unfold Properties.field
  by_cases h : p.entries = [] <;> simp [h]

section Objects

attribute [local simp] List.lookup_append

theorem TypeDef.ofJson?_toJson (t : TypeDef) : ofJson? t.toJson = some t := by
  have hname : t.toJson.text? "name" = some t.name := by
    simp [toJson, text?, str?]
  have hsize : t.toJson.optional? "size" word? = some t.size :=
    optional?_eq word?_word nofun (by simp [toJson])
  have hprecision : t.toJson.optional? "precision" word? = some t.precision :=
    optional?_eq word?_word nofun (by simp [toJson])
  have hscale : t.toJson.optional? "scale" word? = some t.scale :=
    optional?_eq word?_word nofun (by simp [toJson])
  simp [ofJson?, hname, hsize, hprecision, hscale]

theorem Identity.ofJson?_toJson (i : Identity) : ofJson? i.toJson = some i := by
  simp [ofJson?, toJson, text?, str?]

theorem Column.ofJson?_toJson (c : Column) : ofJson? c.toJson = some c := by
  have hname : c.toJson.text? "name" = some c.name := by
    simp [toJson, text?, str?]
  have htype : c.toJson.get? "type" = some c.type.toJson := by
    simp [toJson]
  have hnullable : c.toJson.get? "is_nullable" = some (bool c.isNullable) := by
    simp [toJson]
  have hidentity : c.toJson.optional? "identity" Identity.ofJson? = some c.identity :=
    optional?_eq Identity.ofJson?_toJson nofun (by simp [toJson])
  have hdefault : c.toJson.optional? "default" str? = some c.defaultText :=
    optional?_eq str?_str nofun (by simp [toJson])
  have hproperties : Properties.ofField? c.toJson = some c.properties :=
    Properties.ofField?_eq (by simp [toJson])
  simp [ofJson?, hname, htype, hnullable, hidentity, hdefault, hproperties, bool?,
    TypeDef.ofJson?_toJson]

theorem PrimaryKey.ofJson?_toJson (k : PrimaryKey) : ofJson? k.toJson = some k := by
  have hname : k.toJson.optional? "name" str? = some k.name :=
    optional?_eq str?_str nofun (by simp [toJson])
  have hcolumns : k.toJson.items? "columns" str? = some k.columns :=
    items?_eq str?_str (by simp [toJson, strs])
  simp [ofJson?, hname, hcolumns]

theorem ForeignKey.ofJson?_toJson (k : ForeignKey) : ofJson? k.toJson = some k := by
  have hname : k.toJson.optional? "name" str? = some k.name :=
    optional?_eq str?_str nofun (by simp [toJson])
  have hcolumns : k.toJson.items? "column_names" str? = some k.columns :=
    items?_eq str?_str (by simp [toJson, strs])
  have htable : k.toJson.text? "referenced_table_name" = some k.table := by
    simp [toJson, text?, str?]
  have hreferenced : k.toJson.items? "referenced_column_names" str? = some k.referenced :=
    items?_eq str?_str (by simp [toJson, strs])
  simp [ofJson?, hname, hcolumns, htable, hreferenced]

theorem IndexColumn.ofJson?_toJson (c : IndexColumn) : ofJson? c.toJson = some c := by
  have hdirection : Direction.ofName? c.direction.name = some c.direction := by
    cases c.direction <;> rfl
  simp [ofJson?, toJson, text?, str?, hdirection]

/-- An index is read off its fields, whatever kind is put before them. -/
theorem Index.ofJson?_eq {j : Json} {i : Index}
    (h : ∀ name, name ≠ "clause" → j.get? name = i.fields.lookup name) : ofJson? j = some i := by
  have hname : j.text? "name" = some i.name := by
    simp [text?, str?, h "name" (by decide), fields]
  have htable : j.text? "table_name" = some i.table := by
    simp [text?, str?, h "table_name" (by decide), fields]
  have hunique : j.get? "is_unique" = some (bool i.isUnique) := by
    simp [h "is_unique" (by decide), fields]
  have hcolumns : j.items? "columns" IndexColumn.ofJson? = some i.columns :=
    items?_eq IndexColumn.ofJson?_toJson (by simp [h "columns" (by decide), fields])
  simp [ofJson?, hname, htable, hunique, hcolumns, bool?]

theorem Index.ofJson?_toJson (i : Index) : ofJson? i.toJson = some i := ofJson?_eq fun _ _ => rfl

theorem Table.ofJson?_eq {j : Json} {t : Table}
    (h : ∀ name, name ≠ "clause" → j.get? name = t.fields.lookup name) : ofJson? j = some t := by
  have hname : j.text? "name" = some t.name := by
    simp [text?, str?, h "name" (by decide), fields]
  have hcolumns : j.items? "columns" Column.ofJson? = some t.columns :=
    items?_eq Column.ofJson?_toJson (by simp [h "columns" (by decide), fields])
  have hkey : j.optional? "primary_key" PrimaryKey.ofJson? = some t.primaryKey :=
    optional?_eq PrimaryKey.ofJson?_toJson nofun
      (by simp [h "primary_key" (by decide), fields])
  have hforeign : j.list? "foreign_keys" ForeignKey.ofJson? = some t.foreignKeys :=
    list?_eq ForeignKey.ofJson?_toJson
      (by simp [h "foreign_keys" (by decide), fields])
  have hindexes : j.list? "indexes" Index.ofJson? = some t.indexes :=
    list?_eq Index.ofJson?_toJson (by simp [h "indexes" (by decide), fields])
  have hproperties : Properties.ofField? j = some t.properties :=
    Properties.ofField?_eq (by simp [h "properties" (by decide), fields])
  simp [ofJson?, hname, hcolumns, hkey, hforeign, hindexes, hproperties]

theorem Clause.ofJson?_toJson (c : Clause) : ofJson? c.toJson = some c := by
  cases c with
  | table t =>
    have hkind : (table t).toJson.text? "clause" = some "table" := by
      simp [toJson, text?, str?, kindName]
    have htable : Table.ofJson? (table t).toJson = some t :=
      Table.ofJson?_eq fun name hname => by simp [toJson, hname]
    simp [ofJson?, hkind, htable]
  | index i =>
    have hkind : (index i).toJson.text? "clause" = some "index" := by
      simp [toJson, text?, str?, kindName]
    have hindex : Index.ofJson? (index i).toJson = some i :=
      Index.ofJson?_eq fun name hname => by simp [toJson, hname]
    simp [ofJson?, hkind, hindex]

end Objects

namespace Clause

theorem ofJson?_parse?_text {l : Layout} (hl : l.IsBlank) (c : Clause) :
    (parse? (text l c.toJson)).bind ofJson? = some c := by
  rw [parse?_text hl, Option.bind_some, ofJson?_toJson]

theorem text_toJson_inj {l : Layout} (hl : l.IsBlank) {c d : Clause} :
    text l d.toJson = text l c.toJson ↔ d = c := by
  refine ⟨fun h => ?_, fun h => h ▸ rfl⟩
  have hd := ofJson?_parse?_text hl d
  rw [h, ofJson?_parse?_text hl c] at hd
  exact (Option.some.inj hd).symm

/-- A clause is read back from its JSON text, from the one on one line and from the one with an item a
line, and no other clause has either text. -/
theorem ofJson?_parse?_compact_pretty (c : Clause) :
    (parse? c.toJson.compact).bind ofJson? = some c ∧
      (parse? c.toJson.pretty).bind ofJson? = some c ∧
      ∀ d : Clause, (d.toJson.compact = c.toJson.compact ↔ d = c) ∧
        (d.toJson.pretty = c.toJson.pretty ↔ d = c) :=
  ⟨ofJson?_parse?_text Layout.isBlank_compact c, ofJson?_parse?_text Layout.isBlank_pretty c,
    fun _ => ⟨text_toJson_inj Layout.isBlank_compact, text_toJson_inj Layout.isBlank_pretty⟩⟩

end Clause

end DdlSchema
