import DdlSchema.Proofs.Sqlite.Symbol
import Mathlib.Data.List.Find

/-! Where a statement goes from a state of the grammar. What comes next admits at most one state, and
an idle state leads to no further idle one. -/
namespace DdlSchema
namespace Sqlite

/-- The symbol without what differs between tokens of one kind. -/
def Symbol.shape : Symbol → Symbol
  | name _ => name ""
  | integer _ => integer 0
  | string _ => string ""
  | x => x

/-- What comes next, up to its shape: the end of the statement or a symbol. -/
def Symbol.shapes : List (Option Symbol) :=
  none :: (Keyword.all.map keyword ++
    [opening, closing, comma, name "", integer 0, string "", other]).map some

theorem Symbol.map_shape_mem (x : Option Symbol) : x.map shape ∈ shapes := by
  cases x with
  | none => simp [shapes]
  | some x => cases x <;> simp [shapes, shape, Keyword.mem_all]

/-- Whether a node with the matcher takes what comes next. -/
def Matcher.fits (m : Matcher) : Option Symbol → Bool
  | none => m == finish
  | some x => m.takes x

@[simp] theorem Matcher.fits_map_shape (m : Matcher) (x : Option Symbol) :
    m.fits (x.map Symbol.shape) = m.fits x := by
  cases x with
  | none => rfl
  | some x => cases x <;> cases m <;> rfl

def Matcher.consumes (m : Matcher) : Bool := m.kind.consumes

namespace State

/-- What stands behind a state when one looks through idle nodes. -/
def front (s : State) : List State := if s.matcher = .idle then s.next else [s]

def admits (x : Option Symbol) (s : State) : Bool := s.front.any fun c => c.matcher.fits x

/-- The state to enter next, which may be idle. -/
def choose (x : Option Symbol) (s : State) : Option State := s.next.find? (admits x)

/-- The state that takes a symbol, behind at most one idle state. -/
def move (x : Symbol) (s : State) : Option State :=
  (s.choose (some x)).bind fun c => c.front.find? fun e => e.matcher.takes x

theorem frontier_graph (s : State) : graph.frontier [s.id] = s.front.map id := by
  have hall : ∀ s ∈ all, graph.frontier [s.id] = s.front.map id := by decide +kernel
  exact hall s s.mem_all

theorem matcher_ne_idle {s c : State} (hs : s.matcher = .idle) (hc : c ∈ s.next) :
    c.matcher ≠ .idle := by
  have hall : ∀ s ∈ all, s.matcher = .idle → ∀ c ∈ s.next, c.matcher ≠ .idle := by decide +kernel
  exact hall s s.mem_all hs c hc

@[simp] theorem admits_map_shape (x : Option Symbol) : admits (x.map Symbol.shape) = admits x := by
  funext s
  simp [admits]

theorem filter_admits_length (x : Option Symbol) (s : State) :
    (s.next.filter (admits x)).length ≤ 1 := by
  have hall : ∀ s ∈ all, ∀ x ∈ Symbol.shapes, (s.next.filter (admits x)).length ≤ 1 := by
    decide +kernel
  have h := hall s s.mem_all _ (Symbol.map_shape_mem x)
  simpa only [admits_map_shape] using h

theorem choose_eq_head? (x : Option Symbol) (s : State) :
    s.choose x = (s.next.filter (admits x)).head? := by rw [List.head?_filter, choose]

theorem filter_admits_of_choose {x : Option Symbol} {s c : State} (h : s.choose x = some c) :
    s.next.filter (admits x) = [c] := by
  have hlen := s.filter_admits_length x
  rw [choose_eq_head?] at h
  match hf : s.next.filter (admits x), hlen with
  | [a], _ => simpa [hf] using h
  | [], _ => simp [hf] at h

theorem choose_of_mem {x : Option Symbol} {s c : State} (hc : c ∈ s.next)
    (hx : c.admits x = true) : s.choose x = some c := by
  have hmem : c ∈ s.next.filter (admits x) := List.mem_filter.2 ⟨hc, hx⟩
  have hlen := s.filter_admits_length x
  rw [choose_eq_head?]
  match hf : s.next.filter (admits x), hlen, hmem with
  | [a], _, hmem => rw [List.mem_singleton.1 hmem, List.head?_cons]

theorem mem_next_of_choose {x : Option Symbol} {s c : State} (h : s.choose x = some c) :
    c ∈ s.next := List.mem_of_find?_eq_some h

theorem admits_of_choose {x : Option Symbol} {s c : State} (h : s.choose x = some c) :
    c.admits x = true := List.find?_some h

/-- A state that is not idle is admitted for itself. -/
theorem fits_of_choose {x : Option Symbol} {s c : State} (h : s.choose x = some c)
    (hc : c.matcher ≠ .idle) : c.matcher.fits x = true := by
  simpa [admits, front, hc] using admits_of_choose h

theorem admits_of_matcher_ne_idle {s : State} (hs : s.matcher ≠ .idle) (x : Option Symbol) :
    s.admits x = s.matcher.fits x := by simp [admits, front, hs]

theorem move_of_choose {x : Symbol} {s c : State} (h : s.choose (some x) = some c)
    (hc : c.matcher ≠ .idle) : s.move x = some c := by
  have hx : c.matcher.takes x = true := fits_of_choose h hc
  simp [move, h, front, hc, hx]

/-- Behind an idle state the choice goes on for the same symbol. -/
theorem choose_of_choose_idle {x : Symbol} {s c : State} (h : s.choose (some x) = some c)
    (hc : c.matcher = .idle) : c.choose (some x) = s.move x := by
  have hadmits : ∀ e ∈ c.next, e.admits (some x) = e.matcher.takes x := fun e he =>
    admits_of_matcher_ne_idle (matcher_ne_idle hc he) (some x)
  rw [move, h, Option.bind_some, front, if_pos hc]
  exact List.find?_congr hadmits

theorem exists_move_of_choose {x : Symbol} {s c : State} (h : s.choose (some x) = some c) :
    ∃ e, s.move x = some e := by
  have hc : (c.front.find? fun e => e.matcher.takes x).isSome := by
    simpa [admits, Matcher.fits] using admits_of_choose h
  simpa [move, h] using Option.isSome_iff_exists.1 hc

theorem move_eq_none_of_choose {x : Symbol} {s : State} (h : s.choose (some x) = none) :
    s.move x = none := by simp [move, h]

/-- Only the end of the statement leads into an idle state with an action. -/
theorem action_of_admits {x : Symbol} {c : State} (hc : c.matcher = .idle)
    (h : c.admits (some x) = true) : c.action = none := by
  have hall : ∀ c ∈ all, ∀ x ∈ Symbol.shapes, c.matcher = .idle → c.admits x = true →
      x ≠ none → c.action = none := by decide +kernel
  refine hall c c.mem_all _ (Symbol.map_shape_mem (some x)) hc ?_ (by simp)
  rwa [admits_map_shape]

end State
end Sqlite
end DdlSchema
