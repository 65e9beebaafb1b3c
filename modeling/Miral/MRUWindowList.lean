import Miral.Library.Recency
import Miral.Model

/-! `MRUWindowList`: the windows in the order they were last made active, the latest one at the
end, read backwards past those that do not show. -/
namespace Miral

open Program Prog Recency

structure MRUWindowList where
  windows : List Window
  deriving DecidableEq

namespace MRUWindowList

/-- `erase`: the erase-remove idiom. -/
def erase (self : MRUWindowList) (window : Window) : MRUWindowList :=
  ⟨self.windows.filter (· ≠ window)⟩

def push (self : MRUWindowList) (window : Window) : MRUWindowList :=
  ⟨self.windows.filter (· ≠ window) ++ [window]⟩

/-- `top`, given which windows are visible; the null window is `none`. -/
def top (self : MRUWindowList) (visible : Window → Bool) : Option Window :=
  self.windows.reverse.find? visible

variable {ε σ : Type}

/-- The loop of `enumerate`, from the position before `i` down. The list that is read, and which
of its windows are visible, is that of the state there is when a position is reached. -/
def enumerateFrom (list : σ → MRUWindowList) (visible : σ → Window → Bool)
    (enumerator : Window → Prog ε σ Bool) : Nat → Prog ε σ Unit
  | 0 => pure ()
  | i + 1 => do
    let s ← Prog.state
    match (list s).windows[i]? with
    | some window =>
      if visible s window then do
        if ← enumerator window then enumerateFrom list visible enumerator i else pure ()
      else enumerateFrom list visible enumerator i
    | none => enumerateFrom list visible enumerator i

def enumerate (list : σ → MRUWindowList) (visible : σ → Window → Bool)
    (enumerator : Window → Prog ε σ Bool) : Prog ε σ Unit := do
  let s ← Prog.state
  enumerateFrom list visible enumerator (list s).windows.length

def apply (self : MRUWindowList) : Use Window → MRUWindowList
  | .push window => self.push window
  | .erase window => self.erase window

def after (history : List (Use Window)) : MRUWindowList := history.foldl apply ⟨[]⟩

theorem windows_after (history : List (Use Window)) :
    (after history).windows = Recency.after history := by
  induction history using List.reverseRecOn with
  | nil => rfl
  | append_singleton history use ih =>
    rw [after, List.foldl_append, ← after, Recency.after_append, ← ih]
    cases use with
    | push window => rfl
    | erase window => rfl

section Reading

variable {self : MRUWindowList} {visible : σ → Window → Bool} {enumerator : Window → Prog ε σ Bool}
  {s t : σ} {i : Nat}

/-- A list that is not touched is read backwards. -/
theorem enumerateFrom_returned (le : i ≤ self.windows.length) :
    enumerateFrom (fun _ => self) visible enumerator i s = .returned () t ↔
      ∃ calls, Visits visible enumerator (self.windows.take i).reverse s calls t := by
  induction i generalizing s with
  | zero =>
    constructor
    · intro run
      obtain rfl : s = t := by injection run
      exact ⟨[], .done⟩
    · intro some
      obtain ⟨calls, visits⟩ := some
      cases visits
      rfl
  | succ i ih =>
    have lt : i < self.windows.length := by omega
    have here : self.windows[i]? = some self.windows[i] := List.getElem?_eq_getElem lt
    have order : (self.windows.take (i + 1)).reverse =
        self.windows[i] :: (self.windows.take i).reverse := by
      rw [List.take_add_one, here, Option.toList_some, List.reverse_append]
      rfl
    simp only [order, enumerateFrom, bind_run, Prog.state, here]
    cases shows : visible s self.windows[i] with
    | false => simp only [Bool.false_eq_true, if_false, visits_hidden shows, ih (Nat.le_of_lt lt)]
    | true =>
      simp only [if_true, visits_shown shows, bind_run]
      cases run : enumerator self.windows[i] s with
      | returned answer u =>
        cases answer with
        | true => simp [ih (Nat.le_of_lt lt)]
        | false => simp [pure_run]
      | thrown failure u => simp
      | exhausted => simp

theorem enumerate_returned :
    enumerate (fun _ => self) visible enumerator s = .returned () t ↔
      ∃ calls, Visits visible enumerator self.windows.reverse s calls t := by
  rw [enumerate, bind_run, Prog.state, enumerateFrom_returned (Nat.le_refl _), List.take_length]

end Reading

/-- Two windows that show are in the same order whatever else shows. -/
theorem order_of_visible (self : MRUWindowList) {visible : Window → Bool} {a b : Window}
    (showsA : visible a) (showsB : visible b) :
    [a, b].Sublist (self.windows.reverse.filter visible) ↔ [a, b].Sublist self.windows.reverse := by
  have both : [a, b].filter visible = [a, b] := by
    rw [List.filter_cons_of_pos showsA, List.filter_cons_of_pos showsB, List.filter_nil]
  constructor
  · exact fun sub => sub.trans List.filter_sublist
  · intro sub
    rw [← both]
    exact sub.filter visible

/-- The list is the one in the order of the last pushes. An enumeration calls its enumerator on
the windows that show when it reaches them, the latest first, until it has been answered
`false`. Where nothing is shown or hidden meanwhile these are the visible ones in order, of which
`top` is the first; which of two windows comes first does not depend on what shows. -/
theorem mru_is_recency_order (history : List (Use Window)) :
    (∀ list, Ordered history list ↔ list = (after history).windows) ∧
    (∀ {ε σ : Type} (visible : σ → Window → Bool) (enumerator : Window → Prog ε σ Bool) (s t : σ),
      enumerate (fun _ => after history) visible enumerator s = .returned () t ↔
        ∃ calls, Visits visible enumerator (after history).windows.reverse s calls t) ∧
    (∀ {ε σ : Type} (visible : Window → Bool) (enumerator : Window → Prog ε σ Bool) (s t : σ),
      enumerate (fun _ => after history) (fun _ => visible) enumerator s = .returned () t ↔
        ∃ calls rest answer,
          (after history).windows.reverse.filter visible = calls ++ rest ∧
          Calls enumerator calls s answer t ∧ (answer = true → rest = []) ∧
          calls.head? = (after history).top visible) ∧
    (∀ {ε σ : Type} (visible : σ → Window → Bool) (enumerator : Window → Prog ε σ Bool) (s : σ),
      (∀ window s, ∃ answer t, enumerator window s = .returned answer t) →
        ∃ t, enumerate (fun _ => after history) visible enumerator s = .returned () t) ∧
    (∀ visible : Window → Bool, (after history).top visible = none ↔
      ∀ window ∈ (after history).windows, visible window = false) ∧
    ∀ (visible visible' : Window → Bool) (a b : Window), visible a → visible b → visible' a →
      visible' b → ([a, b].Sublist ((after history).windows.reverse.filter visible) ↔
        [a, b].Sublist ((after history).windows.reverse.filter visible')) := by
  refine ⟨?_, fun _ _ _ _ => enumerate_returned, ?_, ?_, ?_, ?_⟩
  · intro list
    rw [windows_after]
    constructor
    · exact fun ordered => ordered.unique (ordered_after history)
    · rintro rfl
      exact ordered_after history
  · intro ε σ visible enumerator s t
    rw [enumerate_returned]
    constructor
    · intro some
      obtain ⟨calls, visits⟩ := some
      obtain ⟨rest, answer, split, made, all⟩ := visits_iff.mp visits
      exact ⟨calls, rest, answer, split, made, all, visits.head?⟩
    · intro some
      obtain ⟨calls, rest, answer, split, made, all, -⟩ := some
      exact ⟨calls, visits_iff.mpr ⟨rest, answer, split, made, all⟩⟩
  · intro ε σ visible enumerator s returns
    obtain ⟨calls, t, visits⟩ := exists_visits returns
    exact ⟨t, enumerate_returned.mpr ⟨calls, visits⟩⟩
  · intro visible
    simp [top]
  · intro visible visible' a b showsA showsB showsA' showsB'
    rw [order_of_visible _ showsA showsB, order_of_visible _ showsA' showsB']

end MRUWindowList
end Miral
