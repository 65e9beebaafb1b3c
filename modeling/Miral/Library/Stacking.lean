import Mathlib.Data.List.Perm.Basic

/-! Stacking orders, from the bottom to the top, the operation that raises a group of elements
above all others en bloc, and the highest element of a kind. -/
namespace Stacking

variable {α : Type} [DecidableEq α] {z group : List α} {a b : α}

def raise (group z : List α) : List α := z.filter (· ∉ group) ++ z.filter (· ∈ group)

/-- `a` is somewhere below `b`. -/
def Below (z : List α) (a b : α) : Prop := [a, b].Sublist z

def place (a : α) (z : List α) : List α := z.filter (· ≠ a) ++ [a]

def highest (z : List α) (admits : α → Bool) : Option α := z.reverse.find? admits

theorem raise_perm (group z : List α) : (raise group z).Perm z := by
  have split := List.filter_append_perm (· ∈ group) z
  simp only [← decide_not] at split
  exact List.perm_append_comm.trans split

theorem nodup_raise (nodup : z.Nodup) : (raise group z).Nodup :=
  (raise_perm group z).nodup_iff.mpr nodup

theorem nodup_place (nodup : z.Nodup) : (place a z).Nodup := by
  rw [place, List.nodup_append]
  refine ⟨nodup.filter _, by simp, fun b member c same => ?_⟩
  rw [List.mem_singleton] at same
  simp only [List.mem_filter, decide_eq_true_eq] at member
  exact same ▸ member.2

theorem filter_raise_outside : (raise group z).filter (· ∉ group) = z.filter (· ∉ group) := by
  simp [raise, List.filter_append, List.filter_filter]

theorem filter_raise_inside : (raise group z).filter (· ∈ group) = z.filter (· ∈ group) := by
  simp [raise, List.filter_append, List.filter_filter]

omit [DecidableEq α] in
theorem below_filter {p : α → Bool} (left : p a) (right : p b) :
    Below (z.filter p) a b ↔ Below z a b := by
  constructor
  · intro below
    exact List.Sublist.trans below List.filter_sublist
  · intro below
    have kept : ([a, b].filter p).Sublist (z.filter p) := List.Sublist.filter p below
    simpa [Below, left, right] using kept

theorem below_raise (outside : a ∉ group) (inside : b ∈ group) (left : a ∈ z) (right : b ∈ z) :
    Below (raise group z) a b := by
  have low : [a].Sublist (z.filter (· ∉ group)) := by simp [left, outside]
  have high : [b].Sublist (z.filter (· ∈ group)) := by simp [right, inside]
  exact low.append high

theorem below_raise_outside (left : a ∉ group) (right : b ∉ group) :
    Below (raise group z) a b ↔ Below z a b := by
  have kept (l : List α) : Below (l.filter (· ∉ group)) a b ↔ Below l a b :=
    below_filter (by simpa using left) (by simpa using right)
  rw [← kept, filter_raise_outside, kept]

theorem below_raise_inside (left : a ∈ group) (right : b ∈ group) :
    Below (raise group z) a b ↔ Below z a b := by
  have kept (l : List α) : Below (l.filter (· ∈ group)) a b ↔ Below l a b :=
    below_filter (by simpa using left) (by simpa using right)
  rw [← kept, filter_raise_inside, kept]

omit [DecidableEq α] in
theorem below_cons {x : α} : Below (x :: z) a b ↔ Below z a b ∨ a = x ∧ b ∈ z := by
  rw [Below, List.sublist_cons_iff]
  constructor
  · rintro (below | ⟨rest, eq, below⟩)
    · exact .inl below
    · obtain ⟨rfl, rfl⟩ := List.cons.inj eq
      exact .inr ⟨rfl, List.singleton_sublist.mp below⟩
  · rintro (below | ⟨rfl, member⟩)
    · exact .inl below
    · exact .inr ⟨[b], rfl, List.singleton_sublist.mpr member⟩

omit [DecidableEq α] in
theorem Below.mem (below : Below z a b) : a ∈ z ∧ b ∈ z :=
  ⟨below.subset (by simp), below.subset (by simp)⟩

omit [DecidableEq α] in
theorem Below.asymm (nodup : z.Nodup) (below : Below z a b) : ¬Below z b a := by
  induction z with
  | nil => exact absurd below.mem.1 (by simp)
  | cons x z ih =>
    obtain ⟨fresh, nodup⟩ := List.nodup_cons.mp nodup
    rw [below_cons] at below ⊢
    rintro (other | ⟨rfl, left⟩)
    · rcases below with below | ⟨rfl, -⟩
      · exact ih nodup below other
      · exact fresh other.mem.2
    · rcases below with below | ⟨rfl, right⟩
      · exact fresh below.mem.2
      · exact fresh right

omit [DecidableEq α] in
theorem highest_cons {admits : α → Bool} {x : α} : highest (x :: z) admits =
    (highest z admits).or (if admits x then some x else none) := by
  rw [highest, List.reverse_cons, List.find?_append, highest]
  congr 1
  split <;> simp_all

omit [DecidableEq α] in
/-- Nothing above the highest element is admitted. -/
theorem highest_eq_some {admits : α → Bool} (nodup : z.Nodup) :
    highest z admits = some a ↔ a ∈ z ∧ admits a ∧ ∀ b, Below z a b → ¬admits b := by
  induction z with
  | nil => simp [highest]
  | cons x z ih =>
    obtain ⟨fresh, nodup⟩ := List.nodup_cons.mp nodup
    rw [highest_cons]
    constructor
    · intro found
      rcases Option.or_eq_some_iff.mp found with higher | ⟨none, own⟩
      · obtain ⟨member, admitted, top⟩ := (ih nodup).mp higher
        refine ⟨by simp [member], admitted, fun b below => ?_⟩
        rcases below_cons.mp below with below | ⟨rfl, -⟩
        · exact top b below
        · exact absurd member fresh
      · obtain ⟨admitted, same⟩ := Option.ite_none_right_eq_some.mp own
        obtain rfl := Option.some.inj same
        refine ⟨by simp, admitted, fun b below => ?_⟩
        rcases below_cons.mp below with below | ⟨-, member⟩
        · exact absurd below.mem.1 fresh
        · exact List.find?_eq_none.mp none b (List.mem_reverse.mpr member)
    · rintro ⟨member, admitted, top⟩
      rcases List.mem_cons.mp member with rfl | member
      · have none : highest z admits = none := by
          refine List.find?_eq_none.mpr fun b inside => ?_
          exact top b (below_cons.mpr (.inr ⟨rfl, List.mem_reverse.mp inside⟩))
        simp [none, admitted]
      · rw [(ih nodup).mpr ⟨member, admitted, fun b below => top b (below_cons.mpr (.inl below))⟩]
        rfl

end Stacking
