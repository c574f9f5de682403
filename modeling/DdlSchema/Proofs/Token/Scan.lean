import DdlSchema.Proofs.Token.Lexes

/-! How far a text can be read. The lexer takes lexemes off its front up to the end or to the first
fault; what it has read by then are the tokens in front of the fault. -/
namespace DdlSchema
namespace Lexer

attribute [local irreducible] lexeme

/-- The tokens of a text up to its end or to its first fault. -/
def readable (cfg : LexerConfig) (p : Place) (cs : List Char) : List Token :=
  match cs with
  | [] => []
  | c :: cs =>
    match _h : lexeme cfg (c :: cs) with
    | some (.ok l) =>
      l.kind.toList.map (⟨·, p.span l.taken⟩) ++ readable cfg (p.after l.taken) l.rest
    | _ => []
termination_by cs.length
decreasing_by exact (lexeme_splits _h).length_lt

/-- A text that stands at some place is taken off, lexeme by lexeme, in front of another one. -/
inductive Scans (cfg : LexerConfig) (rest : List Char) : Place → List Char → List Token → Prop
  | nil (p : Place) : Scans cfg rest p [] []
  | cons {p : Place} {kind : Option TokenKind} {taken front : List Char} {ts : List Token}
      (hlexeme : lexeme cfg (taken ++ (front ++ rest)) = some (.ok ⟨kind, taken, front ++ rest⟩))
      (hfront : Scans cfg rest (p.after taken) front ts) :
      Scans cfg rest p (taken ++ front) (kind.toList.map (⟨·, p.span taken⟩) ++ ts)

/-- What is wrong at the front of a text that stands at some place. -/
inductive Faults (cfg : LexerConfig) (p : Place) : List Char → LexError → Prop
  | unexpected {c : Char} {cs : List Char} (h : lexeme cfg (c :: cs) = none) :
      Faults cfg p (c :: cs) ⟨.unexpectedCharacter c, p.span [c]⟩
  | refused {cs : List Char} {r : Refusal} (h : lexeme cfg cs = some (.error r)) :
      Faults cfg p cs ⟨r.fault, p.span r.taken⟩

variable {cfg : LexerConfig} {p : Place} {cs front rest : List Char} {ts : List Token}

section Reading

/-- A text is taken off up to its end, and then it is read, or up to a fault, and then that is told. -/
theorem exists_scans (cfg : LexerConfig) (p : Place) (cs : List Char) :
    ∃ front rest, cs = front ++ rest ∧ Scans cfg rest p front (readable cfg p cs) ∧
      (rest = [] ∧ tokens cfg p cs = .ok (readable cfg p cs) ∨
        ∃ e, tokens cfg p cs = .error e ∧ Faults cfg (p.after front) rest e) := by
  fun_induction readable cfg p cs with
  | case1 p => exact ⟨[], [], rfl, .nil p, .inl ⟨rfl, tokens_nil cfg p⟩⟩
  | case2 p c cs l hl ih =>
    obtain ⟨front, rest, hrest, hscans, hend⟩ := ih
    have hlexeme : lexeme cfg (l.taken ++ (front ++ rest)) =
        some (.ok ⟨l.kind, l.taken, front ++ rest⟩) := by
      rw [← hrest, (lexeme_splits hl).1]
      exact hl
    refine ⟨l.taken ++ front, rest, ?_, .cons hlexeme hscans, ?_⟩
    · rw [List.append_assoc, ← hrest, (lexeme_splits hl).1]
    · rw [tokens_of_lexeme p hl]
      rcases hend with ⟨rfl, htokens⟩ | ⟨e, htokens, hfault⟩
      · exact .inl ⟨rfl, by rw [htokens]; rfl⟩
      · exact .inr ⟨e, by rw [htokens]; rfl, by rwa [Place.after_append]⟩
  | case3 p c cs hl =>
    refine ⟨[], c :: cs, rfl, .nil p, .inr ?_⟩
    rw [tokens_cons]
    split
    · rename_i hnone
      exact ⟨_, rfl, .unexpected hnone⟩
    · rename_i r hr
      exact ⟨_, rfl, .refused hr⟩
    · rename_i l hl'
      exact (hl l hl').elim

theorem scans_of_tokens (h : tokens cfg p cs = .ok ts) : Scans cfg [] p cs ts := by
  obtain ⟨front, rest, rfl, hscans, ⟨rfl, htokens⟩ | ⟨e, herror, -⟩⟩ := exists_scans cfg p cs
  · rw [h] at htokens
    rw [Except.ok.inj htokens, List.append_nil]
    rwa [List.append_nil] at hscans
  · rw [h] at herror
    cases herror

theorem tokens_of_scans (h : Scans cfg [] p cs ts) : tokens cfg p cs = .ok ts := by
  induction h with
  | nil p => exact tokens_nil cfg p
  | @cons p kind taken front ts hlexeme _ ih =>
    rw [List.append_nil] at hlexeme
    rw [tokens_of_lexeme p hlexeme, ih]
    rfl

end Reading

section Refusals

variable {r : Refusal}

theorem closed_ne_error (l : Lexeme) : closed cfg l ≠ some (.error r) := by
  unfold closed
  split <;> simp

theorem trivia_refusal (h : trivia cfg cs = some (.error r)) : r.taken <+: cs ∧ r.taken ≠ [] := by
  unfold trivia comment at h
  split at h
  · split at h
    · split at h
      · cases h
      · split at h
        · cases h
        · obtain rfl : _ = r := by simpa using h
          exact ⟨List.prefix_rfl, List.cons_ne_nil _ _⟩
      · cases h
    · cases h
  · cases h

theorem word_ne_error : word cfg cs ≠ some (.error r) := by
  unfold word
  split
  · simp
  · split
    · exact closed_ne_error _
    · simp

theorem punctuation_ne_error : punctuation cfg cs ≠ some (.error r) := by
  unfold punctuation
  split
  · simp
  · split <;> simp

theorem integer_refusal (h : integer cfg cs = some (.error r)) : r.taken <+: cs ∧ r.taken ≠ [] := by
  unfold integer at h
  have hcs := sign_append cs
  generalize sign cs = p at h hcs
  obtain ⟨sgn, ds⟩ := p
  dsimp only at h hcs
  split at h
  · cases h
  · rename_i hne
    split at h
    · split at h
      · cases h
      · obtain rfl : _ = r := by simpa using h
        refine ⟨?_, fun hnil => hne (List.isEmpty_iff.2 (List.append_eq_nil_iff.1 hnil).2)⟩
        rw [← hcs]
        exact (List.prefix_append_right_inj sgn).2 (List.takeWhile_prefix _)
    · cases h

theorem string_refusal (h : string cfg cs = some (.error r)) : r.taken <+: cs ∧ r.taken ≠ [] := by
  unfold string at h
  split at h
  · split at h
    · exact absurd h (closed_ne_error _)
    · obtain rfl : _ = r := by simpa using h
      exact ⟨List.prefix_rfl, List.cons_ne_nil _ _⟩
  · cases h

theorem identifier_refusal (h : identifier cfg cs = some (.error r)) :
    r.taken <+: cs ∧ r.taken ≠ [] := by
  unfold identifier at h
  split at h
  · cases h
  · split at h
    · cases h
    · split at h
      · obtain rfl : _ = r := by simpa using h
        exact ⟨List.prefix_rfl, List.cons_ne_nil _ _⟩
      · rename_i q hread
        split at h
        · obtain rfl : _ = r := by simpa using h
          rw [← QuotedRun.read_append hread]
          exact ⟨⟨q.rest, rfl⟩, List.cons_ne_nil _ _⟩
        · exact absurd h (closed_ne_error _)

/-- What is refused is the front of the text, and some of it. -/
theorem lexeme_refusal (h : lexeme cfg cs = some (.error r)) : r.taken <+: cs ∧ r.taken ≠ [] := by
  rw [lexeme_eq] at h
  simp only [Option.or_eq_some_iff] at h
  rcases h with h | ⟨-, h | ⟨-, h | ⟨-, h | ⟨-, h | ⟨-, h⟩⟩⟩⟩⟩
  · exact trivia_refusal h
  · exact absurd h word_ne_error
  · exact absurd h punctuation_ne_error
  · exact integer_refusal h
  · exact string_refusal h
  · exact identifier_refusal h

/-- A fault has the span of the first characters of the text. -/
theorem Faults.exists_span {e : LexError} (h : Faults cfg p cs e) :
    ∃ taken behind, cs = taken ++ behind ∧ taken ≠ [] ∧ e.span = p.span taken := by
  cases h with
  | @unexpected c cs _ => exact ⟨[c], cs, rfl, nofun, rfl⟩
  | refused h =>
    obtain ⟨⟨behind, hcs⟩, hne⟩ := lexeme_refusal h
    exact ⟨_, behind, hcs.symm, hne, rfl⟩

end Refusals

section Tokens

/-- Each token is the lexeme that stands at its span. -/
theorem Scans.exists_lexeme (h : Scans cfg rest p front ts) {t : Token} (ht : t ∈ ts) :
    ∃ before l, front ++ rest = before ++ (l.taken ++ l.rest) ∧
      lexeme cfg (l.taken ++ l.rest) = some (.ok l) ∧ l.kind = some t.kind ∧
      t.span = (p.after before).span l.taken := by
  induction h with
  | nil => cases ht
  | @cons p kind taken front ts hlexeme _ ih =>
    rcases List.mem_append.1 ht with ht | ht
    · obtain ⟨k, hk, rfl⟩ := List.mem_map.1 ht
      obtain rfl := Option.mem_toList.1 hk
      exact ⟨[], ⟨some k, taken, front ++ rest⟩, List.append_assoc .., hlexeme, rfl, rfl⟩
    · obtain ⟨before, l, hfront, hl, hkind, hspan⟩ := ih ht
      refine ⟨taken ++ before, l, ?_, hl, hkind, by rw [hspan, Place.after_append]⟩
      rw [List.append_assoc, hfront, List.append_assoc]

theorem Scans.offset_le (h : Scans cfg rest p front ts) {t : Token} (ht : t ∈ ts) :
    p.offset ≤ t.span.start := by
  obtain ⟨before, l, -, -, -, hspan⟩ := h.exists_lexeme ht
  rw [hspan]
  exact Nat.le_add_right p.offset (byteSize before)

/-- No token begins before the one in front of it has ended. -/
theorem Scans.pairwise (h : Scans cfg rest p front ts) :
    ts.Pairwise fun t u => t.span.stop ≤ u.span.start := by
  induction h with
  | nil => exact .nil
  | @cons p kind taken front ts _ hfront ih =>
    rw [List.pairwise_append]
    refine ⟨by cases kind <;> simp, ih, fun t ht u hu => ?_⟩
    obtain ⟨k, -, rfl⟩ := List.mem_map.1 ht
    exact hfront.offset_le hu

end Tokens

end Lexer
end DdlSchema
