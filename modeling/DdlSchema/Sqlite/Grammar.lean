/-! The grammar of SQLite statements that define tables and indexes. -/
namespace DdlSchema
namespace Sqlite

/-- Forms of one name are one node, so that a form without children refers to another one:
`column-attributes`, `column-name`, `constraint-end` and their like close the loops. -/
def grammarLines : List String := [
  "(IDLE root",
    "(\"CREATE\" create",
      "(\"TABLE\" do-create-table",
        "(\"IF\" table-if",
          "(\"NOT\" table-if-not",
            "(\"EXISTS\" table-if-exists",
              "(IDENTIFIER table-name))))",
        "(IDENTIFIER table-name",
          "(\"(\" table-open",
            "(IDENTIFIER column-name",
              "(IDENTIFIER type-name",
                "(\"(\" type-open",
                  "(INTEGER type-size",
                    "(\")\" type-close (IDLE column-attributes))",
                    "(\",\" type-comma",
                      "(INTEGER type-scale",
                        "(\")\" type-close)))))",
                "(IDLE column-attributes",
                  "(\"NULL\" null (IDLE column-attributes))",
                  "(\"NOT\" not",
                    "(\"NULL\" not-null (IDLE column-attributes)))",
                  "(\"PRIMARY\" inline-primary",
                    "(\"KEY\" inline-primary-key",
                      "(\"AUTOINCREMENT\" autoincrement (IDLE column-attributes))",
                      "(IDLE column-attributes)))",
                  "(\"DEFAULT\" default",
                    "(\"NULL\" default-null (IDLE column-attributes))",
                    "(INTEGER default-integer (IDLE column-attributes))",
                    "(STRING default-string (IDLE column-attributes))",
                    "(MULTI-WORD default-keyword",
                      ":values (\"CURRENT_TIMESTAMP\" \"CURRENT_DATE\" \"CURRENT_TIME\")",
                      "(IDLE column-attributes)))",
                  "(\",\" column-comma",
                    "(IDENTIFIER column-name)",
                    "(\"CONSTRAINT\" constraint",
                      "(IDENTIFIER constraint-name",
                        "(\"PRIMARY\" do-primary-key)",
                        "(\"FOREIGN\" do-foreign-key)))",
                    "(\"PRIMARY\" do-primary-key",
                      "(\"KEY\" pk-key",
                        "(\"(\" pk-open",
                          "(IDENTIFIER pk-column-name",
                            "(MULTI-WORD pk-asc-or-desc :values (\"ASC\" \"DESC\")",
                              "(IDLE pk-column-end))",
                            "(IDLE pk-column-end",
                              "(\",\" pk-comma (IDENTIFIER pk-column-name))",
                              "(\")\" pk-close",
                                "(IDLE constraint-end",
                                  "(\",\" constraint-comma",
                                    "(\"CONSTRAINT\" constraint)",
                                    "(\"PRIMARY\" do-primary-key)",
                                    "(\"FOREIGN\" do-foreign-key))",
                                  "(\")\" table-close))))))))",
                    "(\"FOREIGN\" do-foreign-key",
                      "(\"KEY\" fk-key",
                        "(\"(\" fk-open",
                          "(IDENTIFIER fk-column-name",
                            "(\",\" fk-comma (IDENTIFIER fk-column-name))",
                            "(\")\" fk-close",
                              "(\"REFERENCES\" fk-references",
                                "(IDENTIFIER fk-referenced-table-name",
                                  "(\"(\" fk-referenced-open",
                                    "(IDENTIFIER fk-referenced-column-name",
                                      "(\",\" fk-referenced-comma",
                                        "(IDENTIFIER fk-referenced-column-name))",
                                      "(\")\" fk-referenced-close",
                                        "(IDLE constraint-end))))))))))))",
                  "(\")\" table-close",
                    "(IDLE table-end (END end)))))))))",
      "(\"UNIQUE\" do-create-unique-index",
        "(\"INDEX\" unique-index (IDLE index-start)))",
      "(\"INDEX\" do-create-index",
        "(IDLE index-start",
          "(\"IF\" index-if",
            "(\"NOT\" index-if-not",
              "(\"EXISTS\" index-if-exists",
                "(IDENTIFIER index-name))))",
          "(IDENTIFIER index-name",
            "(\"ON\" index-on",
              "(IDENTIFIER index-table-name",
                "(\"(\" index-open",
                  "(IDENTIFIER index-column-name",
                    "(MULTI-WORD index-column-asc-or-desc :values (\"ASC\" \"DESC\")",
                      "(IDLE index-column-end))",
                    "(IDLE index-column-end",
                      "(\",\" index-comma (IDENTIFIER index-column-name))",
                      "(\")\" index-close (END end))))))))))))"]

def grammarChars : List Char := grammarLines.flatMap fun line => line.toList ++ ['\n']

def grammar : String := .ofList grammarChars

theorem toList_grammar : grammar.toList = grammarChars := String.toList_ofList

end Sqlite
end DdlSchema
