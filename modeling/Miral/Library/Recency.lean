import Miral.Library.Program
import Mathlib.Data.List.Nodup
import Mathlib.Data.List.Induction

/-! Lists in the order of their members' last use, and reading such a list from the recent end,
past what is hidden, for as long as a program wants to see more. -/
namespace Recency

open Program Prog

section Order

variable {α : Type}

inductive Use (α : Type) where
  | push (a : α)
  | erase (a : α)
  deriving DecidableEq

def Use.subject : Use α → α
  | push a => a
  | erase a => a

/-- The last use of `a` was a push, and this is when it was. -/
structure LastPushed (history : List (Use α)) (a : α) (time : Nat) : Prop where
  pushed : history[time]? = some (.push a)
  since : ∀ later use, time < later → history[later]? = some use → use.subject ≠ a

variable {history : List (Use α)} {list other : List α} {a b : α} {i j : Nat} {use : Use α}

theorem LastPushed.lt_length (last : LastPushed history a i) : i < history.length := by
  obtain ⟨inside, -⟩ := List.getElem?_eq_some_iff.mp last.pushed
  exact inside

/-- One more use replaces the last one of its subject, and of nobody else. -/
theorem lastPushed_append : LastPushed (history ++ [use]) a i ↔
    use = .push a ∧ i = history.length ∨ use.subject ≠ a ∧ LastPushed history a i := by
  constructor
  · intro last
    have inside := last.lt_length
    rw [List.length_append, List.length_singleton] at inside
    by_cases now : i = history.length
    · left
      have pushed := last.pushed
      rw [now, List.getElem?_concat_length] at pushed
      exact ⟨Option.some.inj pushed, now⟩
    · right
      have before : i < history.length := by omega
      constructor
      · exact last.since history.length use before List.getElem?_concat_length
      · constructor
        · rw [← last.pushed, List.getElem?_append_left before]
        · intro later u lt found
          have there : later < history.length := (List.getElem?_eq_some_iff.mp found).1
          apply last.since later u lt
          rw [List.getElem?_append_left there, found]
  · intro either
    rcases either with ⟨rfl, rfl⟩ | ⟨elsewhere, last⟩
    · constructor
      · exact List.getElem?_concat_length
      · intro later u lt found
        obtain ⟨inside, -⟩ := List.getElem?_eq_some_iff.mp found
        rw [List.length_append, List.length_singleton] at inside
        omega
    · constructor
      · rw [List.getElem?_append_left last.lt_length, last.pushed]
      · intro later u lt found
        obtain ⟨inside, -⟩ := List.getElem?_eq_some_iff.mp found
        rw [List.length_append, List.length_singleton] at inside
        by_cases now : later = history.length
        · rw [now, List.getElem?_concat_length] at found
          rw [← Option.some.inj found]
          exact elsewhere
        · rw [List.getElem?_append_left (by omega)] at found
          exact last.since later u lt found

/-- The members are those whose last use was a push, each once, the latest push at the end. -/
structure Ordered (history : List (Use α)) (list : List α) : Prop where
  mem : ∀ a, a ∈ list ↔ ∃ time, LastPushed history a time
  nodup : list.Nodup
  sorted : list.Pairwise fun a b => ∀ i j, LastPushed history a i → LastPushed history b j → i < j

theorem Ordered.unique (first : Ordered history list) (second : Ordered history other) :
    list = other := by
  have perm : list.Perm other := by
    rw [List.perm_ext_iff_of_nodup first.nodup second.nodup]
    intro a
    rw [first.mem, second.mem]
  refine perm.eq_of_pairwise ?_ first.sorted second.sorted
  intro a b inFirst inSecond forth back
  obtain ⟨i, pushedA⟩ := (first.mem a).mp inFirst
  obtain ⟨j, pushedB⟩ := (second.mem b).mp inSecond
  have lt := forth i j pushedA pushedB
  have gt := back j i pushedB pushedA
  omega

variable [DecidableEq α]

/-- A member is taken out before it is put at the end. -/
def Use.apply (list : List α) : Use α → List α
  | push a => list.filter (· ≠ a) ++ [a]
  | erase a => list.filter (· ≠ a)

def after (history : List (Use α)) : List α := history.foldl Use.apply []

theorem after_append : after (history ++ [use]) = use.apply (after history) := by
  rw [after, List.foldl_append]
  rfl

theorem mem_without : b ∈ list.filter (· ≠ a) ↔ b ∈ list ∧ b ≠ a := by
  rw [List.mem_filter, decide_eq_true_eq]

theorem Ordered.without (ordered : Ordered history list) (subject : use.subject = a) :
    (list.filter (· ≠ a)).Pairwise fun b c =>
      ∀ i j, LastPushed (history ++ [use]) b i → LastPushed (history ++ [use]) c j → i < j := by
  have kept : ∀ b ∈ list.filter (· ≠ a), ∀ i, LastPushed (history ++ [use]) b i →
      LastPushed history b i := by
    intro b member i last
    rcases lastPushed_append.mp last with ⟨rfl, -⟩ | ⟨-, before⟩
    · exact absurd subject (mem_without.mp member).2
    · exact before
  refine (ordered.sorted.filter _).imp_of_mem ?_
  intro b c memberB memberC lt i j lastB lastC
  exact lt i j (kept b memberB i lastB) (kept c memberC j lastC)

/-- One use keeps the order. -/
theorem Ordered.apply (ordered : Ordered history list) (use : Use α) :
    Ordered (history ++ [use]) (use.apply list) := by
  cases use with
  | push a =>
    constructor
    · intro b
      simp only [Use.apply, List.mem_append, mem_without, ordered.mem, List.mem_singleton,
        lastPushed_append, Use.push.injEq, Use.subject]
      constructor
      · intro either
        rcases either with ⟨⟨i, last⟩, other⟩ | rfl
        · exact ⟨i, .inr ⟨Ne.symm other, last⟩⟩
        · exact ⟨_, .inl ⟨rfl, rfl⟩⟩
      · intro some
        rcases some with ⟨i, ⟨rfl, -⟩ | ⟨other, last⟩⟩
        · exact .inr rfl
        · exact .inl ⟨⟨i, last⟩, Ne.symm other⟩
    · rw [Use.apply, List.nodup_append]
      refine ⟨ordered.nodup.filter _, List.nodup_singleton a, ?_⟩
      intro b member c single
      obtain rfl := List.mem_singleton.mp single
      exact (mem_without.mp member).2
    · rw [Use.apply, List.pairwise_append]
      refine ⟨ordered.without rfl, List.pairwise_singleton _ a, ?_⟩
      intro b member c single i j lastB lastC
      obtain rfl := List.mem_singleton.mp single
      rcases lastPushed_append.mp lastC with ⟨-, rfl⟩ | ⟨other, -⟩
      · rcases lastPushed_append.mp lastB with ⟨same, -⟩ | ⟨-, before⟩
        · injection same with same
          exact absurd same.symm (mem_without.mp member).2
        · exact before.lt_length
      · exact absurd rfl other
  | erase a =>
    constructor
    · intro b
      simp only [Use.apply, mem_without, ordered.mem, lastPushed_append, Use.subject, reduceCtorEq,
        false_and, false_or]
      constructor
      · intro both
        obtain ⟨⟨i, last⟩, other⟩ := both
        exact ⟨i, Ne.symm other, last⟩
      · intro some
        obtain ⟨i, other, last⟩ := some
        exact ⟨⟨i, last⟩, Ne.symm other⟩
    · exact ordered.nodup.filter _
    · exact ordered.without rfl

theorem ordered_after (history : List (Use α)) : Ordered history (after history) := by
  induction history using List.reverseRecOn with
  | nil =>
    constructor
    · intro a
      constructor
      · intro member
        exact absurd member List.not_mem_nil
      · intro some
        obtain ⟨i, last⟩ := some
        exact absurd last.lt_length (Nat.not_lt_zero i)
    · exact List.nodup_nil
    · exact List.Pairwise.nil
  | append_singleton history use ih =>
    rw [after_append]
    exact ih.apply use

end Order

section Reading

variable {α ε σ : Type}

/-- The calls a program gets while it asks for more, from the front of a list past what is hidden
at the time: those made, and the state after them. -/
inductive Visits (visible : σ → α → Bool) (f : α → Prog ε σ Bool) : List α → σ → List α → σ → Prop
  | done {s} : Visits visible f [] s [] s
  | hidden {a rest s calls t} : visible s a = false → Visits visible f rest s calls t →
      Visits visible f (a :: rest) s calls t
  | last {a rest s t} : visible s a = true → f a s = .returned false t →
      Visits visible f (a :: rest) s [a] t
  | more {a rest s t calls u} : visible s a = true → f a s = .returned true t →
      Visits visible f rest t calls u → Visits visible f (a :: rest) s (a :: calls) u

/-- One call after another, each but the last answered by `true`; `answer` is the last answer. -/
inductive Calls (f : α → Prog ε σ Bool) : List α → σ → Bool → σ → Prop
  | none {s} : Calls f [] s true s
  | last {a s t} : f a s = .returned false t → Calls f [a] s false t
  | more {a rest s t answer u} : f a s = .returned true t → Calls f rest t answer u →
      Calls f (a :: rest) s answer u

variable {f : α → Prog ε σ Bool} {seen : σ → α → Bool} {visible : α → Bool} {order calls : List α}
  {s t : σ}

theorem visits_hidden {a : α} (hides : seen s a = false) :
    Visits seen f (a :: order) s calls t ↔ Visits seen f order s calls t := by
  constructor
  · intro visits
    cases visits with
    | hidden _ visits => exact visits
    | last shows _ => exact absurd shows (Bool.eq_false_iff.mp hides)
    | more shows _ _ => exact absurd shows (Bool.eq_false_iff.mp hides)
  · exact .hidden hides

theorem visits_shown {a : α} (shows : seen s a = true) :
    Visits seen f (a :: order) s calls t ↔
      f a s = .returned false t ∧ calls = [a] ∨
        ∃ u others, f a s = .returned true u ∧ Visits seen f order u others t ∧
          calls = a :: others := by
  constructor
  · intro visits
    cases visits with
    | hidden hides _ => exact absurd shows (Bool.eq_false_iff.mp hides)
    | last _ stops => exact .inl ⟨stops, rfl⟩
    | more _ goes visits => exact .inr ⟨_, _, goes, visits, rfl⟩
  · intro either
    rcases either with ⟨stops, rfl⟩ | ⟨u, others, goes, visits, rfl⟩
    · exact .last shows stops
    · exact .more shows goes visits

/-- Where nothing is shown or hidden meanwhile, the calls go through the visible ones in order, to
the end or to the first `false`. -/
theorem visits_iff : Visits (fun _ => visible) f order s calls t ↔
    ∃ rest answer, order.filter visible = calls ++ rest ∧ Calls f calls s answer t ∧
      (answer = true → rest = []) := by
  constructor
  · intro visits
    induction visits with
    | done => exact ⟨[], true, rfl, .none, fun _ => rfl⟩
    | hidden hides _ ih =>
      obtain ⟨rest, answer, split, made, all⟩ := ih
      refine ⟨rest, answer, ?_, made, all⟩
      rw [List.filter_cons_of_neg (Bool.eq_false_iff.mp hides), split]
    | last shows stops =>
      rw [List.filter_cons_of_pos shows]
      exact ⟨_, false, rfl, .last stops, fun more => absurd more Bool.false_ne_true⟩
    | more shows goes _ ih =>
      obtain ⟨rest, answer, split, made, all⟩ := ih
      refine ⟨rest, answer, ?_, .more goes made, all⟩
      rw [List.filter_cons_of_pos shows, split, List.cons_append]
  · intro made
    obtain ⟨rest, answer, split, made, all⟩ := made
    induction order generalizing s calls with
    | nil =>
      obtain ⟨rfl, rfl⟩ := List.append_eq_nil_iff.mp split.symm
      cases made
      exact .done
    | cons a others ih =>
      by_cases shows : visible a = true
      · rw [List.filter_cons_of_pos shows] at split
        cases made with
        | none =>
          rw [all rfl] at split
          exact absurd split (List.cons_ne_nil _ _)
        | last stops =>
          obtain ⟨rfl, -⟩ := List.cons.inj split
          exact .last shows stops
        | more goes made =>
          obtain ⟨rfl, remaining⟩ := List.cons.inj split
          exact .more shows goes (ih remaining made)
      · rw [List.filter_cons_of_neg shows] at split
        exact .hidden (Bool.eq_false_iff.mpr shows) (ih split made)

theorem Visits.head? (visits : Visits (fun _ => visible) f order s calls t) :
    calls.head? = order.find? visible := by
  obtain ⟨rest, answer, split, made, all⟩ := visits_iff.mp visits
  rw [← List.head?_filter, split]
  cases made with
  | none => rw [all rfl, List.append_nil]
  | last _ => rfl
  | more _ _ => rfl

theorem exists_visits (returns : ∀ a s, ∃ answer t, f a s = .returned answer t) :
    ∃ calls t, Visits seen f order s calls t := by
  induction order generalizing s with
  | nil => exact ⟨[], s, .done⟩
  | cons a rest ih =>
    by_cases shows : seen s a = true
    · obtain ⟨answer, t, run⟩ := returns a s
      cases answer with
      | false => exact ⟨[a], t, .last shows run⟩
      | true =>
        obtain ⟨calls, u, visits⟩ := ih (s := t)
        exact ⟨a :: calls, u, .more shows run visits⟩
    · obtain ⟨calls, t, visits⟩ := ih (s := s)
      exact ⟨calls, t, .hidden (Bool.eq_false_iff.mpr shows) visits⟩

end Reading

end Recency
