import DdlSchema.Proofs.Token.Pieces

/-! Quoted runs: what is read behind an opening character is what was put there, and the strings and
identifiers that come of it. -/
namespace DdlSchema
namespace Lexer

/-- A text with each of its closing characters written twice. -/
def doubled (close : Char) (body : List Char) : List Char :=
  body.flatMap fun c => if c = close then [c, c] else [c]

@[simp] theorem doubled_nil (close : Char) : doubled close [] = [] := rfl

@[simp] theorem doubled_cons (close c : Char) (body : List Char) :
    doubled close (c :: body) = (if c = close then [c, c] else [c]) ++ doubled close body := rfl

namespace QuotedRun

variable {close : Char}

theorem read_other {doubles : Bool} {c : Char} (hc : c ≠ close) (cs : List Char) :
    read close doubles (c :: cs) = (read close doubles cs).map (push c [c]) := by
  cases cs with
  | nil => simp [read, hc]
  | cons d cs => rw [read, if_neg hc]

theorem read_pair (cs : List Char) :
    read close true (close :: close :: cs) = (read close true cs).map (push close [close, close]) := by
  simp [read]

/-- A closing character ends the run, unless it is the first of two. -/
theorem read_close {doubles : Bool} {rest : List Char}
    (hrest : doubles = true → ∀ c ∈ rest.head?, c ≠ close) :
    read close doubles (close :: rest) = some ⟨[], [close], rest⟩ := by
  cases rest with
  | nil => simp [read]
  | cons c rest =>
    have hpair : (doubles && c == close) = false := by
      cases doubles with
      | false => rfl
      | true => simpa using hrest rfl c rfl
    simp [read, hpair]

theorem read_doubled (body : List Char) {rest : List Char} (hrest : ∀ c ∈ rest.head?, c ≠ close) :
    read close true (doubled close body ++ close :: rest) =
      some ⟨body, doubled close body ++ [close], rest⟩ := by
  induction body with
  | nil => exact read_close fun _ => hrest
  | cons c body ih =>
    rw [doubled_cons]
    by_cases hc : c = close
    · subst hc
      simp only [if_true, List.cons_append, List.nil_append]
      rw [read_pair, ih]
      rfl
    · simp only [if_neg hc, List.cons_append, List.nil_append]
      rw [read_other hc, ih]
      rfl

/-- Without doubling, the first closing character ends the run. -/
theorem read_plain {body : List Char} (hbody : close ∉ body) (rest : List Char) :
    read close false (body ++ close :: rest) = some ⟨body, body ++ [close], rest⟩ := by
  induction body with
  | nil => exact read_close nofun
  | cons c body ih =>
    rw [List.mem_cons, not_or] at hbody
    rw [List.cons_append, read_other (Ne.symm hbody.1), ih hbody.2]
    rfl

/-- What is taken is the value with its closing characters doubled, or a value without them. -/
theorem taken_of_read {doubles : Bool} {cs : List Char} {q : QuotedRun}
    (h : read close doubles cs = some q) :
    q.taken = (if doubles then doubled close q.value else q.value) ++ [close] ∧
      (doubles = true ∨ close ∉ q.value) := by
  fun_induction read close doubles cs generalizing q with
  | case1 => cases h
  | case2 =>
    obtain rfl := Option.some.inj h
    simp
  | case3 => cases h
  | case4 d cs hpair ih =>
    obtain ⟨r, hr, rfl⟩ := Option.map_eq_some_iff.1 h
    obtain ⟨hdoubles, rfl⟩ : doubles = true ∧ d = close := by simpa using hpair
    have htaken := (ih hr).1
    simp only [hdoubles, if_true] at htaken
    simp [push, hdoubles, htaken]
  | case5 =>
    obtain rfl := Option.some.inj h
    simp
  | case6 c d cs hc ih =>
    obtain ⟨r, hr, rfl⟩ := Option.map_eq_some_iff.1 h
    obtain ⟨htaken, hvalue⟩ := ih hr
    cases doubles with
    | true => simp_all [push]
    | false => simp_all [push, Ne.symm hc]

/-- A run does not end in front of one more closing character that would double its last. -/
theorem rest_of_read {doubles : Bool} {cs : List Char} {q : QuotedRun}
    (h : read close doubles cs = some q) (hdoubles : doubles = true) :
    ∀ c ∈ q.rest.head?, c ≠ close := by
  fun_induction read close doubles cs generalizing q with
  | case1 => cases h
  | case2 =>
    obtain rfl := Option.some.inj h
    simp
  | case3 => cases h
  | case4 d cs hpair ih =>
    obtain ⟨r, hr, rfl⟩ := Option.map_eq_some_iff.1 h
    have hrest := ih hr
    exact hrest
  | case5 d cs hpair =>
    obtain rfl := Option.some.inj h
    rintro c hc rfl
    obtain rfl : d = c := Option.some.inj hc
    simp [hdoubles] at hpair
  | case6 c d cs hc ih =>
    obtain ⟨r, hr, rfl⟩ := Option.map_eq_some_iff.1 h
    have hrest := ih hr
    exact hrest

end QuotedRun

variable {cfg : LexerConfig}

/-- What stands behind a run begins with no other character than blanks and punctuation have. -/
theorem head_ne (hcfg : cfg.IsPlain) (close : Char) (hblank : Text.isBlank close = false)
    (hclose : close ∉ ['(', ')', ',', ';']) {rest : List Char} (hrest : cfg.endsRun rest = true) :
    ∀ c ∈ rest.head?, c ≠ close := by
  rintro c hc rfl
  cases rest with
  | nil => cases hc
  | cons d rest =>
    obtain rfl : d = c := Option.some.inj hc
    rw [LexerConfig.endsRun, hblank, isPunctuation_eq_false hcfg hclose] at hrest
    cases hrest

section Strings

theorem string_eq (body : List Char) {rest : List Char} (hstop : ∀ c ∈ rest.head?, c ≠ '\'')
    (hrest : cfg.endsRun rest = true) :
    string cfg ('\'' :: (doubled '\'' body ++ '\'' :: rest)) = some (.ok
      ⟨some (.string (.ofList body)), '\'' :: (doubled '\'' body ++ ['\'']), rest⟩) := by
  simp only [string, QuotedRun.read_doubled body hstop, closed, if_pos hrest]

/-- Only punctuation comes before a string. -/
theorem lexeme_of_string (hquote : cfg.isPunctuation '\'' = false) {cs : List Char}
    {x : Except Refusal Lexeme} (h : string cfg ('\'' :: cs) = some x) :
    lexeme cfg ('\'' :: cs) = some x := by
  rw [lexeme_eq, trivia_eq_none (by decide) (comment_eq_none (by decide) (by decide)),
    word_eq_none (by decide), punctuation_eq_none hquote,
    integer_eq_none (by decide) (by decide) (by decide), h]
  rfl

theorem lexeme_string (hcfg : cfg.IsPlain) (body : List Char) {rest : List Char}
    (hrest : cfg.endsRun rest = true) :
    lexeme cfg ('\'' :: (doubled '\'' body ++ '\'' :: rest)) = some (.ok
      ⟨some (.string (.ofList body)), '\'' :: (doubled '\'' body ++ ['\'']), rest⟩) :=
  lexeme_of_string (isPunctuation_eq_false hcfg (by decide))
    (string_eq body (head_ne hcfg '\'' (by decide) (by decide) hrest) hrest)

theorem kinds_string (hcfg : cfg.IsPlain) (body : List Char) {rest : List Char}
    (hrest : cfg.endsRun rest = true) :
    kinds cfg ('\'' :: (doubled '\'' body ++ '\'' :: rest)) =
      (kinds cfg rest).map (.string (.ofList body) :: ·) :=
  kinds_of_lexeme (lexeme_string hcfg body hrest)

end Strings

section Identifiers

/-- A name as it stands between its quotes. -/
def inside (d : Delimiter) (name : List Char) : List Char :=
  if d.doubles then doubled d.closing name else name

theorem read_inside {d : Delimiter} {name rest : List Char}
    (hname : d.doubles = true ∨ d.closing ∉ name)
    (hstop : d.doubles = true → ∀ c ∈ rest.head?, c ≠ d.closing) :
    QuotedRun.read d.closing d.doubles (inside d name ++ d.closing :: rest) =
      some ⟨name, inside d name ++ [d.closing], rest⟩ := by
  unfold inside
  cases hdoubles : d.doubles with
  | true => exact QuotedRun.read_doubled name (hstop hdoubles)
  | false =>
    rw [hdoubles] at hname
    exact QuotedRun.read_plain (hname.resolve_left nofun) rest

theorem identifier_eq {d : Delimiter} (hd : cfg.delimiter? d.opening = some d)
    {name rest : List Char} (hne : name ≠ []) (hname : d.doubles = true ∨ d.closing ∉ name)
    (hstop : d.doubles = true → ∀ c ∈ rest.head?, c ≠ d.closing)
    (hrest : cfg.endsRun rest = true) :
    identifier cfg (d.opening :: (inside d name ++ d.closing :: rest)) = some (.ok
      ⟨some (.identifier (.ofList name) true), d.opening :: (inside d name ++ [d.closing]),
        rest⟩) := by
  simp only [identifier, hd, read_inside hname hstop, closed, if_pos hrest, List.isEmpty_iff,
    if_neg hne]

/-- Only punctuation comes before an identifier. -/
theorem lexeme_of_identifier {d : Delimiter} (hopening : cfg.isPunctuation d.opening = false)
    {cs : List Char} {x : Except Refusal Lexeme} (h : identifier cfg (d.opening :: cs) = some x) :
    lexeme cfg (d.opening :: cs) = some x := by
  have hblank : Text.isBlank d.opening = false := by cases d <;> decide
  have hcomment : d.opening ≠ '-' ∧ d.opening ≠ '/' := by cases d <;> decide
  have hword : startsWord d.opening = false := by cases d <;> decide
  have hinteger : d.opening ≠ '+' ∧ d.opening.isDigit = false := by cases d <;> decide
  have hstring : d.opening ≠ '\'' := by cases d <;> decide
  rw [lexeme_eq, trivia_eq_none hblank (comment_eq_none hcomment.1 hcomment.2),
    word_eq_none hword, punctuation_eq_none hopening,
    integer_eq_none hinteger.1 hcomment.1 hinteger.2, string_eq_none hstring, h]
  rfl

/-- A delimited name, which is empty for no settings. -/
theorem lexeme_identifier (hcfg : cfg.IsPlain) {d : Delimiter}
    (hd : cfg.delimiter? d.opening = some d) {name rest : List Char} (hne : name ≠ [])
    (hname : d.doubles = true ∨ d.closing ∉ name) (hrest : cfg.endsRun rest = true) :
    lexeme cfg (d.opening :: (inside d name ++ d.closing :: rest)) = some (.ok
      ⟨some (.identifier (.ofList name) true), d.opening :: (inside d name ++ [d.closing]),
        rest⟩) := by
  have hblank : Text.isBlank d.closing = false := by cases d <;> decide
  have hclosing : d.closing ∉ ['(', ')', ',', ';'] := by cases d <;> decide
  have hopening : d.opening ∉ ['(', ')', ',', ';'] := by cases d <;> decide
  exact lexeme_of_identifier (isPunctuation_eq_false hcfg hopening)
    (identifier_eq hd hne hname (fun _ => head_ne hcfg d.closing hblank hclosing hrest) hrest)

theorem kinds_identifier (hcfg : cfg.IsPlain) {d : Delimiter} (hd : cfg.delimiter? d.opening = some d)
    {name rest : List Char} (hne : name ≠ []) (hname : d.doubles = true ∨ d.closing ∉ name)
    (hrest : cfg.endsRun rest = true) :
    kinds cfg (d.opening :: (inside d name ++ d.closing :: rest)) =
      (kinds cfg rest).map (.identifier (.ofList name) true :: ·) :=
  kinds_of_lexeme (lexeme_identifier hcfg hd hne hname hrest)

end Identifiers

end Lexer
end DdlSchema
