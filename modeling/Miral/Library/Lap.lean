import Mathlib.Data.List.Cycle
import Mathlib.Data.List.TakeWhile

/-! Going round a list without repeats: the successor of an element, the others in the order in
which they come after it, and steps that go from one successor to the next. -/
namespace Lap

variable {α σ : Type} [DecidableEq α] {l ws : List α} {x w : α} {i : Nat}

/-- What comes after an element, and then what comes before it, starts with its cyclic
successor. -/
theorem headD_eq_next (nodup : l.Nodup) (h : x ∈ l) :
    ((l.dropWhile (· ≠ x)).tail ++ l.takeWhile (· ≠ x)).headD x = l.next x h := by
  obtain ⟨before, after, rfl, fresh⟩ := List.eq_append_cons_of_mem h
  have others : ∀ w ∈ before, decide (w ≠ x) := by
    intro w member
    simpa using fun eq : w = x => fresh (eq ▸ member)
  have from' : ((before ++ x :: after).dropWhile fun w => decide (w ≠ x)) = x :: after := by
    rw [List.dropWhile_append_of_pos others]
    simp
  have upto : ((before ++ x :: after).takeWhile fun w => decide (w ≠ x)) = before := by
    rw [List.takeWhile_append_of_pos others]
    simp
  have turned : (before ++ x :: after) ~r (x :: (after ++ before)) := List.isRotated_append
  have first (rest : List α) : rest.headD x = (x :: rest).next x (by simp) := by
    cases rest with
    | nil => simp
    | cons y rest => simp
  rw [from', upto, List.tail_cons, List.isRotated_next_eq turned nodup h, first]

omit [DecidableEq α] in
theorem headD_filter_append {p : α → Bool} {after before : List α}
    (alike : (∀ w ∈ after ++ before, p w = true) ∨ ∀ w ∈ after ++ before, p w = false) :
    (after.filter p ++ (before.filter p ++ (after ++ before))).headD x =
      (after ++ before).headD x := by
  rw [← List.append_assoc, ← List.filter_append]
  rcases alike with all | none
  · rw [List.filter_eq_self.mpr all]
    cases after ++ before <;> rfl
  · rw [List.filter_eq_nil_iff.mpr fun w member => by simp [none w member]]
    rfl

theorem mem_around (nodup : l.Nodup)
    (member : w ∈ (l.dropWhile (· ≠ x)).tail ++ l.takeWhile (· ≠ x)) : w ∈ l ∧ w ≠ x := by
  rcases List.mem_append.mp member with after | before
  · refine ⟨List.dropWhile_subset _ (List.mem_of_mem_tail after), ?_⟩
    have first := l.head?_dropWhile_not fun w => decide (w ≠ x)
    have distinct := nodup.sublist (List.dropWhile_sublist fun w => decide (w ≠ x))
    cases rest : l.dropWhile fun w => decide (w ≠ x) with
    | nil =>
      rw [rest] at after
      contradiction
    | cons y behind =>
      rw [rest] at after first distinct
      have same : y = x := by simpa using first
      rintro rfl
      exact (List.nodup_cons.mp distinct).1 (same ▸ after)
  · exact ⟨List.takeWhile_subset _ before, by simpa using List.mem_takeWhile_imp before⟩

omit [DecidableEq α] in
theorem eq_rotate (each : ∀ j < ws.length, ws[j]? = l[(i + j) % l.length]?)
    (whole : ws.length = l.length) : ws = l.rotate i := by
  apply List.ext_getElem?
  intro j
  by_cases inside : j < ws.length
  · rw [each j inside, List.getElem?_rotate (whole ▸ inside), Nat.add_comm]
  · rw [List.getElem?_eq_none (by omega),
      List.getElem?_eq_none (by rw [List.length_rotate]; omega)]

theorem getElem?_next (nodup : l.Nodup) (here : l[i]? = some x) (member : x ∈ l) :
    l[(i + 1) % l.length]? = some (l.next x member) := by
  obtain ⟨inside, rfl⟩ := List.getElem?_eq_some_iff.mp here
  rw [List.next_getElem l nodup i inside]
  exact List.getElem?_eq_getElem _

theorem iterate_next {f : σ → σ} {key : σ → Option α} {holds : σ → Prop} {s : σ}
    (nodup : l.Nodup) (keeps : ∀ t, holds t → holds (f t))
    (step : ∀ t a (member : a ∈ l), holds t → key t = some a →
      key (f t) = some (l.next a member))
    (start : holds s) (here : key s = l[i]?) (inside : i < l.length) (k : Nat) :
    key (f^[k] s) = l[(i + k) % l.length]? := by
  induction k generalizing s i with
  | zero => rw [Nat.add_zero, Nat.mod_eq_of_lt inside, Function.iterate_zero_apply, here]
  | succ k ih =>
    have place : l[i]? = some l[i] := List.getElem?_eq_getElem inside
    have member : l[i] ∈ l := List.getElem_mem inside
    have next := step s l[i] member start (here.trans place)
    rw [← getElem?_next nodup place member] at next
    rw [Function.iterate_succ_apply, ih (keeps s start) next (Nat.mod_lt _ (by omega)),
      Nat.mod_add_mod]
    congr 2
    omega

end Lap
