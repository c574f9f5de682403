import DdlSchema.Draft
import Mathlib.Data.List.Forall2

/-! Computations that may fail, one for each item of a list: all succeed, or one of them fails. -/
namespace DdlSchema

variable {ε α β γ : Type} {f : α → Except ε β} {as : List α}

theorem bind_eq_error {x : Except ε α} {f : α → Except ε β} {e : ε} (h : x >>= f = .error e) :
    x = .error e ∨ ∃ a, x = .ok a ∧ f a = .error e := by
  cases x with
  | error e' => exact .inl (congrArg Except.error (Except.error.inj h))
  | ok a => exact .inr ⟨a, rfl, h⟩

theorem mapM_eq_ok_iff {bs : List β} :
    as.mapM f = .ok bs ↔ List.Forall₂ (fun a b => f a = .ok b) as bs := by
  induction as generalizing bs with
  | nil => simp [pure, Except.pure, eq_comm]
  | cons a as ih =>
    rw [List.mapM_cons, List.forall₂_cons_left_iff]
    constructor
    · intro h
      obtain ⟨b, hb, h⟩ := Draft.bind_eq_ok h
      obtain ⟨bs', hbs, h⟩ := Draft.bind_eq_ok h
      exact ⟨b, bs', hb, ih.1 hbs, (Except.ok.inj h).symm⟩
    · rintro ⟨b, bs', hb, hbs, rfl⟩
      rw [hb, ih.2 hbs]
      rfl

theorem mapM_eq_ok {r : β → γ → Prop} {g : α → γ} (h : ∀ a ∈ as, ∃ b, f a = .ok b ∧ r b (g a)) :
    ∃ bs, as.mapM f = .ok bs ∧ List.Forall₂ r bs (as.map g) := by
  induction as with
  | nil => exact ⟨[], rfl, .nil⟩
  | cons a as ih =>
    obtain ⟨b, hb, hr⟩ := h a List.mem_cons_self
    obtain ⟨bs, hbs, hrs⟩ := ih fun a' ha' => h a' (List.mem_cons_of_mem a ha')
    refine ⟨b :: bs, ?_, .cons hr hrs⟩
    rw [List.mapM_cons, hb, hbs]
    rfl

theorem mapM_eq_error {e : ε} (h : as.mapM f = .error e) : ∃ a ∈ as, f a = .error e := by
  induction as with
  | nil => cases h
  | cons a as ih =>
    rw [List.mapM_cons] at h
    cases hb : f a with
    | error e' =>
      rw [hb] at h
      obtain rfl : e' = e := Except.error.inj h
      exact ⟨a, List.mem_cons_self, hb⟩
    | ok b =>
      rw [hb] at h
      cases hbs : as.mapM f with
      | error e' =>
        rw [hbs] at h
        obtain rfl : e' = e := Except.error.inj h
        obtain ⟨a', ha', he⟩ := ih hbs
        exact ⟨a', List.mem_cons_of_mem a ha', he⟩
      | ok bs =>
        rw [hbs] at h
        cases h

theorem exists_of_mapM_eq_ok {bs : List β} (h : as.mapM f = .ok bs) : ∀ a ∈ as, ∃ b, f a = .ok b := by
  intro a ha
  have hall := mapM_eq_ok_iff.1 h
  induction hall with
  | nil => cases ha
  | cons hb hall ih =>
    rcases List.mem_cons.1 ha with rfl | ha
    · exact ⟨_, hb⟩
    · exact ih (mapM_eq_ok_iff.2 hall) ha

theorem forall_of_mapM_eq_ok {p : β → Prop} {bs : List β} (h : as.mapM f = .ok bs)
    (hf : ∀ a ∈ as, ∀ b, f a = .ok b → p b) : ∀ b ∈ bs, p b := by
  have hall := mapM_eq_ok_iff.1 h
  clear h
  induction hall with
  | nil => nofun
  | @cons a b as bs hb _ ih =>
    intro b' hb'
    rcases List.mem_cons.1 hb' with rfl | hb'
    · exact hf a List.mem_cons_self b' hb
    · exact ih (fun a' ha' => hf a' (List.mem_cons_of_mem a ha')) b' hb'

/-- Whether a computation has a result, or an error with a property. -/
def FailsWith (p : ε → Prop) (x : Except ε α) : Prop := ∀ e, x = .error e → p e

section Failures

variable {p : ε → Prop} {x : Except ε α}

theorem FailsWith.ok (a : α) : FailsWith p (.ok a) := nofun

theorem FailsWith.error {e : ε} (h : p e) : FailsWith p (.error e : Except ε α) := by
  intro e' he
  obtain rfl : e = e' := Except.error.inj he
  exact h

theorem FailsWith.bind {f : α → Except ε β} (hx : FailsWith p x) (hf : ∀ a, FailsWith p (f a)) :
    FailsWith p (x >>= f) := by
  intro e h
  rcases bind_eq_error h with h | ⟨a, -, h⟩
  · exact hx e h
  · exact hf a e h

theorem FailsWith.map (g : α → β) (hx : FailsWith p x) : FailsWith p (x.map g) := by
  cases x with
  | error e => exact .error (hx e rfl)
  | ok a => exact .ok (g a)

theorem FailsWith.mapError {ε' : Type} {x : Except ε' α} {g : ε' → ε} (h : ∀ e, p (g e)) :
    FailsWith p (x.mapError g) := by
  cases x with
  | error e => exact .error (h e)
  | ok a => exact .ok a

theorem FailsWith.mapM (h : ∀ a, FailsWith p (f a)) : FailsWith p (as.mapM f) := by
  intro e he
  obtain ⟨a, -, ha⟩ := mapM_eq_error he
  exact h a e ha

end Failures

theorem mapM_congr {g : α → Except ε β} (h : ∀ a ∈ as, f a = g a) : as.mapM f = as.mapM g := by
  induction as with
  | nil => rfl
  | cons a as ih =>
    rw [List.mapM_cons, List.mapM_cons, h a List.mem_cons_self,
      ih fun a' ha' => h a' (List.mem_cons_of_mem a ha')]

/-- A second computation follows a first one that succeeds. -/
theorem mapM_eq_ok_map {f' : α → Except ε γ} {g : β → γ} {bs : List β} (h : as.mapM f = .ok bs)
    (hf : ∀ a ∈ as, ∀ b, f a = .ok b → f' a = .ok (g b)) : as.mapM f' = .ok (bs.map g) := by
  have hall := mapM_eq_ok_iff.1 h
  clear h
  induction hall with
  | nil => rfl
  | @cons a b as bs hb hall ih =>
    rw [List.mapM_cons, hf a List.mem_cons_self b hb, ih fun a' ha' => hf a' (List.mem_cons_of_mem a ha')]
    rfl

/-- Items that are read go together with those that a second list keeps of its own. -/
theorem mapM_filter_eq_ok {r : α → γ → Prop} {p : α → Bool} {g : γ → Option β} {cs : List γ}
    (h : List.Forall₂ r as cs)
    (hr : ∀ a c, r a c → p a = false ∧ g c = none ∨ p a = true ∧ ∃ b, f a = .ok b ∧ g c = some b) :
    (as.filter p).mapM f = .ok (cs.filterMap g) := by
  induction h with
  | nil => rfl
  | @cons a c as cs hac _ ih =>
    rcases hr a c hac with ⟨hp, hg⟩ | ⟨hp, b, hb, hg⟩
    · rw [List.filter_cons_of_neg (by simp [hp]), List.filterMap_cons_none hg, ih]
    · rw [List.filter_cons_of_pos hp, List.filterMap_cons_some hg, List.mapM_cons, hb, ih]
      rfl

end DdlSchema
