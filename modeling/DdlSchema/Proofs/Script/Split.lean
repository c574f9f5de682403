import DdlSchema.Proofs.Script.Print
import DdlSchema.Proofs.Statement.Stable

/-! Printed statements in a script: none is cut, whatever its names and default values hold, and the
splitter finds them all in their order. -/
namespace DdlSchema
namespace Script

open Statement (Segment)

/-- A text that goes into one segment, whatever stands behind it. -/
def Uncut (s : String) : Prop :=
  ∃ isCode, ∀ rest, Segment.Passes s.toList isCode rest

section Texts

variable {s t : String}

theorem Uncut.empty : Uncut "" := ⟨false, Segment.Passes.nil⟩

theorem Uncut.append (hs : Uncut s) (ht : Uncut t) : Uncut (s ++ t) := by
  obtain ⟨isCode, hs⟩ := hs
  obtain ⟨isCode', ht⟩ := ht
  refine ⟨isCode || isCode', fun rest => ?_⟩
  rw [String.toList_append]
  exact (hs _).append (ht rest)

theorem uncut_ordinary (h : ∀ c ∈ s.toList, Segment.IsOrdinary c) : Uncut s :=
  ⟨_, Segment.passes_all h⟩

theorem uncut_fixed (h : (s.toList.all fun c => decide (Segment.IsOrdinary c)) = true) : Uncut s :=
  uncut_ordinary fun c hc => of_decide_eq_true (List.all_eq_true.1 h c hc)

theorem uncut_space : Uncut " " := uncut_fixed (by decide)

theorem uncut_opening : Uncut "(" := uncut_fixed (by decide)

theorem uncut_closing : Uncut ")" := uncut_fixed (by decide)

theorem uncut_comma : Uncut ", " := uncut_fixed (by decide)

theorem Uncut.intercalate {sep : String} {lines : List String} (hsep : Uncut sep)
    (h : ∀ line ∈ lines, Uncut line) : Uncut (sep.intercalate lines) := by
  induction lines with
  | nil => exact .empty
  | cons line lines ih =>
    have hline := h line List.mem_cons_self
    have hlines := ih fun line' hline' => h line' (List.mem_cons_of_mem line hline')
    cases lines with
    | nil => simpa using hline
    | cons next lines =>
      rw [String.intercalate_cons_cons, String.append_assoc]
      exact hline.append (hsep.append hlines)

end Texts

section Leaves

theorem uncut_quote (d : Delimiter) (name : String) : Uncut (quote d name) := by
  have hpasses := Segment.passes_delimited (delimiterFor_holds d name)
  refine ⟨true, fun rest => ?_⟩
  have hrest := hpasses rest
  rw [quote, String.toList_ofList, delimited]
  simpa [Lexer.inside, Lexer.doubled] using hrest

theorem uncut_typeName (d : Delimiter) (name : String) : Uncut (typeName d name) := by
  unfold typeName
  split
  · rename_i hplain
    unfold isPlain at hplain
    rw [Bool.and_eq_true] at hplain
    refine uncut_ordinary fun c hc => Segment.isOrdinary_of_continuesWord ?_
    cases hname : name.toList with
    | nil =>
      rw [hname] at hc
      cases hc
    | cons first more =>
      have hword := hplain.1
      rw [hname] at hword hc
      rw [Bool.and_eq_true] at hword
      rcases List.mem_cons.1 hc with rfl | hc
      · exact Lexer.continuesWord_of_startsWord hword.1
      · exact List.all_eq_true.1 hword.2 c hc
  · exact uncut_quote d name

theorem uncut_nat (n : Nat) : Uncut (toString n) := by
  refine uncut_ordinary fun c hc => ?_
  have hdigit : c ∈ Nat.toDigits 10 n := by
    rwa [← Nat.toList_repr]
  exact Segment.isOrdinary_of_continuesWord
    (Lexer.continuesWord_of_isDigit (Lexer.isDigit_of_mem_toDigits hdigit))

theorem uncut_integer (n : Int) : Uncut (toString n) := by
  refine ⟨true, fun rest => ?_⟩
  rw [Lexer.toList_toString]
  exact Segment.passes_integer (Lexer.isSign_minus n) (fun c hc => Lexer.isDigit_of_mem_toDigits hc)
    Nat.toDigits_ne_nil rest

theorem uncut_keyword (k : Sqlite.Keyword) : Uncut k.text := by
  have hall : ∀ k ∈ Sqlite.Keyword.all,
      (k.text.toList.all fun c => decide (Segment.IsOrdinary c)) = true := by decide
  exact uncut_fixed (hall k k.mem_all)

/-- Default values are words, numbers and strings, and no other text. -/
theorem uncut_default (value : Sqlite.DefaultValue) : Uncut value.text := by
  cases value with
  | null => exact uncut_keyword .null
  | integer n => exact uncut_integer n
  | string s =>
    refine ⟨true, fun rest => ?_⟩
    rw [Sqlite.DefaultValue.text, toList_quoteString]
    exact Segment.passes_doubled (by decide) s.toList rest
  | current m => exact uncut_keyword m.keyword

theorem uncut_type (d : Delimiter) (t : TypeDef) :
    Uncut { t with name := typeName d t.name }.text := by
  have hname := uncut_typeName d t.name
  have hnumber (n : UInt32) : Uncut (toString n) := uncut_nat n.toNat
  unfold TypeDef.text
  dsimp only
  split
  · exact ((hname.append uncut_opening).append (hnumber _)).append uncut_closing
  · exact ((((hname.append uncut_opening).append (hnumber _)).append uncut_comma).append (hnumber _)).append
      uncut_closing
  · exact ((hname.append uncut_opening).append (hnumber _)).append uncut_closing
  · exact hname

end Leaves

section Lines

variable {d : Delimiter} {t : Table} {line : String}

theorem uncut_column {isKey : Bool} {c : Column} (h : column d t isKey c = .ok line)
    (hdefault : ∀ text ∈ c.defaultText, Uncut text) : Uncut line := by
  unfold column at h
  split at h
  · cases h
  · obtain rfl := Except.ok.inj h
    have hnull : Uncut (if c.isNullable then " NULL" else " NOT NULL") := by
      cases c.isNullable <;> exact uncut_fixed (by decide)
    have hkey : Uncut (if isKey then " PRIMARY KEY AUTOINCREMENT" else "") := by
      cases isKey <;> exact uncut_fixed (by decide)
    have hvalue : Uncut (c.defaultText.elim "" (" DEFAULT " ++ ·)) := by
      cases htext : c.defaultText with
      | none => exact .empty
      | some text =>
        have hword : Uncut " DEFAULT " := uncut_fixed (by decide)
        exact hword.append (hdefault text htext)
    have hname := (uncut_quote d c.name).append uncut_space
    exact (((hname.append (uncut_type d c.type)).append hnull).append hkey).append hvalue

theorem uncut_constraintName (d : Delimiter) (name : Option String) :
    Uncut (constraintName d name) := by
  cases name with
  | none => exact .empty
  | some n =>
    have hword : Uncut "CONSTRAINT " := uncut_fixed (by decide)
    exact (hword.append (uncut_quote d n)).append uncut_space

theorem uncut_nameList (d : Delimiter) (names : List String) : Uncut (nameList d names) := by
  refine uncut_comma.intercalate fun line hline => ?_
  obtain ⟨name, -, rfl⟩ := List.mem_map.1 hline
  exact uncut_quote d name

theorem uncut_primaryKey {k : PrimaryKey} (h : primaryKey d t k = .ok line) : Uncut line := by
  unfold primaryKey at h
  split at h
  · cases h
  · obtain rfl := Except.ok.inj h
    have hword : Uncut "PRIMARY KEY(" := uncut_fixed (by decide)
    have hnames := (uncut_constraintName d k.name).append hword
    exact (hnames.append (uncut_nameList d k.columns)).append uncut_closing

theorem uncut_foreignKey {k : ForeignKey} (h : foreignKey d t k = .ok line) : Uncut line := by
  unfold foreignKey at h
  split at h
  · cases h
  · split at h
    · cases h
    · obtain rfl := Except.ok.inj h
      have hword : Uncut "FOREIGN KEY(" := uncut_fixed (by decide)
      have hreferences : Uncut ") REFERENCES " := uncut_fixed (by decide)
      have hcolumns := ((uncut_constraintName d k.name).append hword).append
        (uncut_nameList d k.columns)
      have htable := (hcolumns.append hreferences).append (uncut_quote d k.table)
      exact ((htable.append uncut_opening).append (uncut_nameList d k.referenced)).append uncut_closing

theorem uncut_keyLines {identity : Option String} {keys : List String}
    (h : keyLines d t identity = .ok keys) : ∀ line ∈ keys, Uncut line := by
  unfold keyLines at h
  split at h
  · rename_i k _
    cases hline : primaryKey d t k with
    | error e =>
      rw [hline] at h
      cases h
    | ok key =>
      rw [hline] at h
      obtain rfl : [key] = keys := Except.ok.inj h
      intro line hmem
      obtain rfl := List.mem_singleton.1 hmem
      exact uncut_primaryKey hline
  · obtain rfl := Except.ok.inj h
    nofun

theorem uncut_constraints {identity : Option String} {lines : List String}
    (h : constraints d t identity = .ok lines) : ∀ line ∈ lines, Uncut line := by
  rw [constraints_eq_bind] at h
  obtain ⟨keys, hkeys, h⟩ := Draft.bind_eq_ok h
  obtain ⟨foreign, hforeign, h⟩ := Draft.bind_eq_ok h
  obtain rfl : keys ++ foreign = lines := Except.ok.inj h
  have hlines := forall_of_mapM_eq_ok hforeign fun k _ line hline => uncut_foreignKey hline
  intro line hline
  rcases List.mem_append.1 hline with hline | hline
  · exact uncut_keyLines hkeys line hline
  · exact hlines line hline

end Lines

section Statements

variable {d : Delimiter} {text : String}

/-- A text that is one statement of every script that it stands in, between separators. -/
structure IsStatement (s : String) : Prop where
  uncut : Uncut s
  first : s.toList.head? = some 'C'
  last : ∃ front, s.toList = front ++ [')']

theorem isStatement_createTable {withConstraints : Bool} {t : Table}
    (h : createTable d withConstraints t = .ok text)
    (hdefault : ∀ c ∈ t.columns, ∀ value ∈ c.defaultText, Uncut value) : IsStatement text := by
  obtain ⟨identity, columns, lines, -, hcolumns, hlines, rfl⟩ := exists_lines_of_createTable h
  have hcolumn := forall_of_mapM_eq_ok hcolumns fun c hc line hline =>
    uncut_column hline (hdefault c hc)
  have hconstraint : ∀ line ∈ lines, Uncut line := by
    cases withConstraints with
    | true => exact uncut_constraints hlines
    | false =>
      obtain rfl := Except.ok.inj hlines
      nofun
  have hindented : ∀ line ∈ (columns ++ lines).map ("    " ++ ·), Uncut line := by
    intro line hline
    obtain ⟨bare, hbare, rfl⟩ := List.mem_map.1 hline
    have hindent : Uncut "    " := uncut_fixed (by decide)
    rcases List.mem_append.1 hbare with hbare | hbare
    · exact hindent.append (hcolumn bare hbare)
    · exact hindent.append (hconstraint bare hbare)
  have hcreate : Uncut "CREATE TABLE " := uncut_fixed (by decide)
  have hbracket : Uncut "(\n" := uncut_fixed (by decide)
  have hcomma : Uncut ",\n" := uncut_fixed (by decide)
  have hfront := (hcreate.append (uncut_quote d t.name)).append hbracket
  have hbody := hfront.append (hcomma.intercalate hindented)
  refine ⟨hbody.append uncut_closing, ?_, _, String.toList_append⟩
  simp [String.toList_append]

theorem isStatement_createIndex {i : Index} (h : createIndex d i = .ok text) : IsStatement text := by
  unfold createIndex at h
  split at h
  · cases h
  · obtain rfl := Except.ok.inj h
    have hcreate : Uncut "CREATE " := uncut_fixed (by decide)
    have hindex : Uncut "INDEX " := uncut_fixed (by decide)
    have hon : Uncut " ON " := uncut_fixed (by decide)
    have hunique : Uncut (if i.isUnique then "UNIQUE " else "") := by
      cases i.isUnique <;> exact uncut_fixed (by decide)
    have hcolumns : ∀ line ∈ i.columns.map (fun c => quote d c.name ++ " " ++ c.direction.keyword),
        Uncut line := by
      intro line hline
      obtain ⟨c, -, rfl⟩ := List.mem_map.1 hline
      have hdirection : Uncut c.direction.keyword := by
        cases c.direction <;> exact uncut_fixed (by decide)
      exact ((uncut_quote d c.name).append uncut_space).append hdirection
    have hname := ((hcreate.append hunique).append hindex).append (uncut_quote d i.name)
    have htable := ((hname.append hon).append (uncut_quote d i.table)).append uncut_opening
    have hbody := htable.append (uncut_comma.intercalate hcolumns)
    refine ⟨hbody.append uncut_closing, ?_, _, String.toList_append⟩
    simp [String.toList_append]

theorem uncut_defaultText {t : Sqlite.TableDef} :
    ∀ c ∈ t.table.columns, ∀ value ∈ c.defaultText, Uncut value := by
  intro c hc value hvalue
  obtain ⟨c', -, rfl⟩ := List.mem_map.1 hc
  rw [Sqlite.ColumnDef.defaultText_column] at hvalue
  obtain ⟨v, -, rfl⟩ := Option.map_eq_some_iff.1 hvalue
  exact uncut_default v

/-- What is printed of a definition is one statement. -/
theorem isStatement_create {withConstraints : Bool} {s : Sqlite.Definition}
    (h : create d withConstraints s.clause = .ok text) : IsStatement text := by
  cases s with
  | table t =>
    have htable : createTable d withConstraints t.table = .ok text := h
    exact isStatement_createTable htable uncut_defaultText
  | index i =>
    have hindex : createIndex d i.index = .ok text := h
    exact isStatement_createIndex hindex

end Statements

section Scripts

variable {s : String} {sts : List String}

/-- A printed script: each statement with its separator, with a blank line between two of them. -/
def joined (sts : List String) : String := "\n\n".intercalate (sts.map (· ++ ";"))

theorem exists_statements_of_render {d : Delimiter} {withConstraints : Bool} {cs : List Clause}
    {out : String} (h : render d withConstraints cs = .ok out) :
    ∃ sts, cs.mapM (create d withConstraints) = .ok sts ∧ out = joined sts := by
  obtain ⟨sts, hsts, h⟩ := Draft.bind_eq_ok h
  exact ⟨sts, hsts, (Except.ok.inj h).symm⟩

theorem joined_cons (s : String) (sts : List String) :
    ∃ gap, (∀ c ∈ gap, Text.isWhiteSpace c = true) ∧
      (joined (s :: sts)).toList = s.toList ++ ';' :: (gap ++ (joined sts).toList) := by
  cases sts with
  | nil => exact ⟨[], nofun, by simp [joined]⟩
  | cons next sts =>
    refine ⟨['\n', '\n'], List.all_eq_true.1 (by decide), ?_⟩
    rw [joined, List.map_cons, List.map_cons, String.intercalate_cons_cons]
    simp [joined, String.toList_append]

theorem IsStatement.passes (h : IsStatement s) (rest : List Char) :
    Segment.Passes s.toList true rest := by
  obtain ⟨isCode, hpasses⟩ := h.uncut
  obtain ⟨cs, hcs⟩ := List.head?_eq_some_iff.1 h.first
  have hfirst := Segment.passes_ordinary (c := 'C') (by decide) cs
  have hcode : (Segment.read .code s.toList).1.hasCode = true := by
    rw [Segment.Passes, List.singleton_append] at hfirst
    rw [hcs, hfirst]
    rfl
  have hempty := hpasses []
  rw [Segment.Passes, List.append_nil] at hempty
  rw [hempty, Segment.push_hasCode] at hcode
  -- Behind an empty rest the first character alone decides.
  obtain rfl : isCode = true := by simpa [Segment.read] using hcode
  exact hpasses rest

theorem IsStatement.trim (h : IsStatement s) {front : List Char}
    (hfront : ∀ c ∈ front, Text.isWhiteSpace c = true) :
    Text.trimEnd (Text.trimStart (front ++ s.toList)) = s.toList := by
  obtain ⟨ds, hds⟩ := h.last
  have hlast : s.toList.getLast? = some ')' := by rw [hds, List.getLast?_concat]
  have htrimmed : Statement.IsTrimmed s.toList := ⟨⟨_, h.first, by decide⟩, _, hlast, by decide⟩
  have htrim := htrimmed.trim hfront (List.forall_mem_nil _)
  rwa [List.append_nil] at htrim

/-- The splitter finds the statements of a printed script, behind any white space. -/
theorem ofSegments_joined (h : ∀ s ∈ sts, IsStatement s) {front : List Char}
    (hfront : ∀ c ∈ front, Text.isWhiteSpace c = true) (n : Nat) :
    (Statement.ofSegments n (Segment.segments (front ++ (joined sts).toList))).map (·.text) = sts := by
  induction sts generalizing front n with
  | nil =>
    have hpasses := Segment.passes_white hfront []
    have hjoined : (joined []).toList = [] := rfl
    rw [hjoined, Segment.segments, hpasses]
    rfl
  | cons s sts ih =>
    obtain ⟨gap, hgap, hjoined⟩ := joined_cons s sts
    have hs := h s List.mem_cons_self
    have hpasses := (Segment.passes_white hfront _).append (hs.passes (';' :: (gap ++ (joined sts).toList)))
    rw [hjoined, ← List.append_assoc, Segment.segments_append_separator hpasses,
      Statement.ofSegments]
    have hmore := ih (fun s' hs' => h s' (List.mem_cons_of_mem s hs')) hgap
      (n + byteSize (front ++ s.toList) + 1)
    have htext : (Segment.trim n ⟨front ++ s.toList, true⟩).text = s := by
      rw [Segment.trim, hs.trim hfront, String.ofList_toList]
    exact congrArg₂ List.cons htext hmore

theorem split_joined (h : ∀ s ∈ sts, IsStatement s) :
    (Statement.split (joined sts)).map (·.text) = sts :=
  ofSegments_joined h (List.forall_mem_nil _) 0

end Scripts

end Script
end DdlSchema
