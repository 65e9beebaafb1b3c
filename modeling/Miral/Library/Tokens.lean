import Mathlib.Data.List.Basic

/-! What separators leave of a list: its pieces, the pieces that are not empty, and what follows
each separator. -/
namespace Tokens

variable {α : Type} {p : α → Bool} {a b : List α} {c : α}

/-- The pieces that are not empty. -/
def tokens (p : α → Bool) (xs : List α) : List (List α) := (xs.splitOnP p).filter (!·.isEmpty)

@[simp] theorem tokens_nil : tokens p [] = [] := rfl

theorem tokens_append_cons (sep : p c) : tokens p (a ++ c :: b) = tokens p a ++ tokens p b := by
  rw [tokens, List.splitOnP_append_cons a b sep, List.filter_append]
  rfl

theorem tokens_cons (sep : p c) : tokens p (c :: b) = tokens p b := tokens_append_cons (a := []) sep

theorem tokens_concat (sep : p c) : tokens p (a ++ [c]) = tokens p a := by
  rw [tokens_append_cons sep]
  simp

theorem tokens_of_free (free : ∀ x ∈ a, p x = false) (filled : a ≠ []) : tokens p a = [a] := by
  rw [tokens, List.splitOnP_eq_singleton free]
  simp [filled]

/-- The list and what follows each of its separators. -/
def rests (p : α → Bool) : List α → List (List α)
  | xs => xs :: after p xs
where
  after (p : α → Bool) : List α → List (List α)
    | [] => []
    | x :: xs => if p x then xs :: after p xs else after p xs

theorem takeWhile_rests (xs : List α) :
    (rests p xs).map (·.takeWhile (!p ·)) = xs.splitOnP p := by
  induction xs with
  | nil => rfl
  | cons x rest ih =>
    rw [List.splitOnP_cons_eq_if_modifyHead, ← ih]
    by_cases sep : p x
    · simp [rests, rests.after, sep]
    · simp [rests, rests.after, sep]

theorem splitOnP_of_findIdx? {i : Nat} (found : a.findIdx? p = some i) :
    a.splitOnP p = a.take i :: (a.drop (i + 1)).splitOnP p := by
  obtain ⟨inside, sep, free⟩ := List.findIdx?_eq_some_iff_getElem.mp found
  have whole : a = a.take i ++ a[i] :: a.drop (i + 1) := by simp
  have piece : ∀ x ∈ a.take i, p x = false := by
    intro x member
    obtain ⟨j, here, rfl⟩ := List.getElem_of_mem member
    have before : j < i := by grind
    simpa using free j before
  calc a.splitOnP p = (a.take i ++ a[i] :: a.drop (i + 1)).splitOnP p := congrArg _ whole
    _ = a.take i :: (a.drop (i + 1)).splitOnP p :=
      List.splitOnP_append_cons_of_forall_mem piece _ sep _

theorem not_nil_of_mem_tokens {t : List α} (member : t ∈ tokens p a) : t ≠ [] := by
  rintro rfl
  simp [tokens] at member

variable {sep t u : List α} {ts : List (List α)}

theorem intercalate_concat (some : ts ≠ []) :
    sep.intercalate (ts ++ [t]) = sep.intercalate ts ++ sep ++ t := by
  induction ts with
  | nil => exact absurd rfl some
  | cons first rest ih =>
    by_cases alone : rest = []
    · simp [alone, List.intercalate_cons_cons]
    · rw [List.cons_append, List.intercalate_cons_of_ne_nil (by simp), ih alone,
        List.intercalate_cons_of_ne_nil alone]
      simp

theorem intercalate_concat_append :
    sep.intercalate (ts ++ [t ++ u]) = sep.intercalate (ts ++ [t]) ++ u := by
  by_cases some : ts = []
  · simp [some]
  · rw [intercalate_concat some, intercalate_concat some, List.append_assoc _ t u]

theorem intercalate_eq_nil (filled : ∀ t ∈ ts, t ≠ []) : sep.intercalate ts = [] ↔ ts = [] := by
  refine ⟨fun nothing => ?_, fun none => by rw [none, List.intercalate_nil]⟩
  cases ts with
  | nil => rfl
  | cons first rest =>
    have first_filled := filled first (by simp)
    by_cases some : rest = []
    · simp [some, first_filled] at nothing
    · rw [List.intercalate_cons_of_ne_nil some] at nothing
      simp [first_filled] at nothing

end Tokens
