import DdlSchema.Proofs.Script.Print
import DdlSchema.Proofs.Sqlite.Language

/-! What is printed of an accepted statement is read back as the same clause. -/
namespace DdlSchema

namespace Sqlite

/-- The clauses of a text whose tokens are known. -/
theorem parse_of_tokenize {sql : String} {ts : List Token} (h : tokenize lexer sql = .ok ts) :
    parse sql = (parser.parseTokens ts {}).verdict.map fun _ => (parser.parseTokens ts {}).draft.clauses := by
  rw [parse, Parser.parse, Parser.parseInto, parser_lexer, h]

/-- An accepted text is a valid statement, with names that are not empty and numbers of 64 bits. -/
theorem exists_definition_of_parse {sql : String} {cs : List Clause} (h : parse sql = .ok cs) :
    ∃ s : Definition, s.IsValid ∧ (∀ x ∈ s.symbols, x.IsWritable) ∧ cs = [s.clause] := by
  cases ht : tokenize lexer sql with
  | error e =>
    rw [parse, Parser.parse, Parser.parseInto, parser_lexer, ht] at h
    cases h
  | ok ts =>
    rw [parse_of_tokenize ht] at h
    cases hv : (parser.parseTokens ts {}).verdict with
    | error e => rw [hv] at h; cases h
    | ok u =>
      obtain ⟨s, hs, hvalid⟩ := parser_follows.exists_definition hv
      have hclauses := parser_follows.clauses_of_spells hv hs
      rw [hv] at h
      refine ⟨s, hvalid, fun x hx => ?_, (Except.ok.inj h).symm.trans hclauses⟩
      rw [← (forall₂_matches_iff.1 hs).1] at hx
      obtain ⟨t, ht', rfl⟩ := List.mem_map.1 hx
      have hkinds := Lexer.tokens_kinds lexer .start sql.toList
      rw [show Lexer.tokens lexer .start sql.toList = .ok ts from ht] at hkinds
      exact Symbol.isWritable_ofKind
        (Lexer.isLexed_of_kinds hkinds.symm t.kind (List.mem_map_of_mem ht'))

end Sqlite

namespace Script

open Sqlite (Symbol Keyword Definition lexer parse)

theorem tokenize_of_writes {text : String} {xs : List Symbol} (h : Writes text xs) :
    ∃ ts, tokenize lexer text = .ok ts ∧ ts.map Symbol.ofToken = xs := by
  have hsymbols := h [] rfl
  rw [List.append_nil, symbols?, symbols?, Lexer.kinds_nil, Option.map_some, Option.map_some,
    List.map_nil, List.append_nil] at hsymbols
  obtain ⟨ks, hks, rfl⟩ := Option.map_eq_some_iff.1 hsymbols
  rw [← Lexer.tokens_kinds lexer .start] at hks
  cases ht : tokenize lexer text with
  | error e =>
    rw [show Lexer.tokens lexer .start text.toList = .error e from ht] at hks
    cases hks
  | ok ts =>
    rw [show Lexer.tokens lexer .start text.toList = .ok ts from ht] at hks
    obtain rfl : ts.map Token.kind = ks := Option.some.inj hks
    refine ⟨ts, rfl, ?_⟩
    rw [List.map_map]
    rfl

/-- Whether a text is short enough for the parser, which takes a limited number of steps. -/
def StaysInFuel (sql : String) : Prop := ∀ n, parse sql ≠ .error (.fuelExhausted n)

/-- A printed statement is accepted if it is valid, and then it is what was printed. -/
theorem parse_of_writes {text : String} {s : Definition} (h : Writes text s.symbols)
    (hfuel : StaysInFuel text) (cs : List Clause) :
    parse text = .ok cs ↔ s.IsValid ∧ cs = [s.clause] := by
  obtain ⟨ts, hts, hsymbols⟩ := tokenize_of_writes h
  have hne : (Sqlite.parser.parseTokens ts {}).verdict ≠ .error (.fuelExhausted Sqlite.parser.fuel) := by
    intro he
    refine hfuel Sqlite.parser.fuel ?_
    rw [Sqlite.parse_of_tokenize hts, he]
    rfl
  have hkept := Sqlite.parser_follows.kept_parseTokens_of_ne hne
  rw [hsymbols, Sqlite.run_symbols] at hkept
  rw [Sqlite.parse_of_tokenize hts]
  cases hv : (Sqlite.parser.parseTokens ts {}).verdict with
  | error e =>
    rw [Outcome.kept_of_error hv] at hkept
    split at hkept
    · cases hkept
    · rename_i hvalid
      exact ⟨nofun, fun h => absurd h.1 hvalid⟩
  | ok u =>
    rw [Outcome.kept_of_ok hv] at hkept
    split at hkept
    · rename_i hvalid
      have hclauses := Option.some.inj hkept
      constructor
      · intro h
        exact ⟨hvalid, (Except.ok.inj h).symm.trans hclauses⟩
      · rintro ⟨-, rfl⟩
        exact congrArg Except.ok hclauses
    · cases hkept

theorem staysInFuel_of_writes {text : String} {xs : List Symbol} (h : Writes text xs)
    (hxs : xs.length ≤ 499999) : StaysInFuel text := by
  intro n hn
  obtain ⟨ts, hts, rfl⟩ := tokenize_of_writes h
  rw [List.length_map] at hxs
  rw [Sqlite.parse_of_tokenize hts] at hn
  rcases Sqlite.parser_follows.parseTokens_concludes ts with ⟨c, hc⟩ | ⟨e, he, ⟨pe, rfl⟩ | ⟨-, hnot⟩⟩
  · rw [(hc {}).1] at hn
    cases hn
  · rw [(he {}).1] at hn
    cases hn
  · exact hnot (Sqlite.fuel_le_parser_fuel hxs)

/-- The index is printed, and read back as it is. -/
def IndexReadsBack (d : Delimiter) (i : Index) : Prop :=
  ∃ text, createIndex d i = .ok text ∧ (StaysInFuel text → parse text = .ok [.index i])

/-- Which tables are printed, and which of them are read back as they are. Without the constraints, the
foreign keys are lost, and the primary key unless it stands with its column. -/
structure TableReadsBack (d : Delimiter) (t : Table) : Prop where
  fails_iff : (∃ e, createTable d true t = .error e) ↔
    ∃ k ∈ t.foreignKeys, k.columns.length ≠ k.referenced.length
  error : ∀ e, createTable d true t = .error e →
    ∃ k ∈ t.foreignKeys, k.columns.length ≠ k.referenced.length ∧
      e = .foreignKeyColumnMismatch t.name k.name k.columns.length k.referenced.length
  parse_iff : ∀ text, createTable d true t = .ok text → StaysInFuel text →
    (parse text = .ok [.table t] ↔ t.IdentityNameIsUnique)
  parse_without : ∃ text, createTable d false t = .ok text ∧
    (t.IdentityNameIsUnique → StaysInFuel text → parse text = .ok [.table { t with
      foreignKeys := []
      primaryKey := if t.columns.any (·.identity.isSome) then t.primaryKey else none }])

def ReadsBack (d : Delimiter) : Clause → Prop
  | .table t => TableReadsBack d t
  | .index i => IndexReadsBack d i

section Clauses

variable {d : Delimiter} (hd : d = .brackets ∨ d = .doubleQuotes)

include hd

theorem indexReadsBack {i : Sqlite.IndexDef} (hi : i.IsWritable) : IndexReadsBack d i.index := by
  obtain ⟨text, htext, hwrites⟩ := createIndex_eq_ok hd hi
  refine ⟨text, htext, fun hfuel => ?_⟩
  have hparse := (parse_of_writes (s := .index i.rewritten) hwrites hfuel [.index i.rewritten.index]).2
    ⟨trivial, rfl⟩
  rwa [Sqlite.IndexDef.index_rewritten] at hparse

variable {t : Sqlite.TableDef} (ht : t.IsWritable) (hvalid : (Definition.table t).IsValid)

include ht hvalid

theorem parse_iff_of_createTable {text : String} (htext : createTable d true t.table = .ok text)
    (hfuel : StaysInFuel text) :
    parse text = .ok [.table t.table] ↔ t.table.IdentityNameIsUnique := by
  have hlength := length_eq_of_createTable hd ht hvalid htext
  obtain ⟨text', htext', hwrites⟩ := createTable_true_eq_ok hd ht hvalid hlength
  obtain rfl : text' = text := Except.ok.inj (htext'.symm.trans htext)
  rw [parse_of_writes (s := .table (t.rewritten true)) hwrites hfuel,
    Sqlite.TableDef.isValid_rewritten hvalid, and_iff_left_iff_imp]
  intro hunique
  rw [Definition.clause, Sqlite.TableDef.table_rewritten_true hvalid hunique]

theorem tableReadsBack : TableReadsBack d t.table where
  fails_iff := by
    constructor
    · rintro ⟨e, he⟩
      obtain ⟨k, hk, hlength, -⟩ := createTable_true_eq_error hd ht hvalid he
      exact ⟨k, hk, hlength⟩
    · rintro ⟨k, hk, hlength⟩
      cases htext : createTable d true t.table with
      | error e => exact ⟨e, rfl⟩
      | ok text => exact absurd (length_eq_of_createTable hd ht hvalid htext k hk) hlength
  error := fun e => createTable_true_eq_error hd ht hvalid
  parse_iff := fun text => parse_iff_of_createTable hd ht hvalid
  parse_without := by
    obtain ⟨text, htext, hwrites⟩ := createTable_false_eq_ok hd ht hvalid
    refine ⟨text, htext, fun hunique hfuel => ?_⟩
    have hparse := (parse_of_writes (s := .table (t.rewritten false)) hwrites hfuel
      [.table (t.rewritten false).table]).2
      ⟨(Sqlite.TableDef.isValid_rewritten hvalid false).2 hunique, rfl⟩
    rw [Sqlite.TableDef.table_rewritten_false hvalid hunique] at hparse
    rw [hparse, Sqlite.TableDef.isSome_identity?]

end Clauses

/-- What an accepted statement stands for is printed in a way that the parser reads back. -/
theorem readsBack_of_parse (sql : String) (cs : List Clause) (h : parse sql = .ok cs) :
    ∃ c, cs = [c] ∧ ReadsBack .brackets c ∧ ReadsBack .doubleQuotes c := by
  obtain ⟨s, hvalid, hwritable, hcs⟩ := Sqlite.exists_definition_of_parse h
  refine ⟨s.clause, hcs, ?_⟩
  cases s with
  | table t =>
    have ht := Sqlite.TableDef.isWritable hvalid hwritable
    exact ⟨tableReadsBack (.inl rfl) ht hvalid, tableReadsBack (.inr rfl) ht hvalid⟩
  | index i =>
    have hi := Sqlite.IndexDef.isWritable hwritable
    exact ⟨indexReadsBack (.inl rfl) hi, indexReadsBack (.inr rfl) hi⟩

/-- A table of one column that counts up. -/
def countingTable : Sqlite.TableDef where
  name := "t"
  columns := ⟨{ name := "a", type := "int", attributes := [.primaryKey true] }, []⟩

def countingText : String := "CREATE TABLE [t]([a] int PRIMARY KEY AUTOINCREMENT)"

theorem writes_countingText : Writes countingText countingTable.symbols := by
  have hquote (name : String) (hname : name ≠ "") := writes_quote (d := .brackets) (.inl rfl) hname
  have htype : Writes "int" [.name "int"] := writes_word (c := 'i') rfl (by decide) (by decide)
  have hkey := (trails_keywords [.primary, .key, .autoincrement]).append Trails.closing
  have hcolumn := (hquote "a" (by decide)).append (htype.append hkey).space
  have hname := (hquote "t" (by decide)).append hcolumn.opening
  have hcreate := (writes_keyword .create).append
    ((writes_keyword .table).append hname.space).space
  have htext : countingText =
      Keyword.create.text ++ (" " ++ (Keyword.table.text ++ (" " ++ (quote .brackets "t" ++ ("(" ++
        (quote .brackets "a" ++ (" " ++ ("int" ++
          (String.join ([Keyword.primary, .key, .autoincrement].map fun k => " " ++ k.text) ++
            ")"))))))))) := by
    decide +kernel
  rw [htext]
  exact hcreate

theorem readsBack_of_parse_countingText :
    parse countingText = .ok [.table countingTable.table] ∧
      ∃ c, [.table countingTable.table] = [c] ∧ ReadsBack .brackets c ∧ ReadsBack .doubleQuotes c :=
  have hparse := (parse_of_writes (s := .table countingTable) writes_countingText
    (staysInFuel_of_writes writes_countingText (by decide)) [.table countingTable.table]).2
    ⟨by decide, rfl⟩
  ⟨hparse, readsBack_of_parse _ _ hparse⟩

end Script
end DdlSchema
