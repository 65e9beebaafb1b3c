import Mathlib.Data.List.Forall2
import Mathlib.Order.Defs.Unbundled

/-! Programs over one mutable state that can throw and whose recursions are bounded
by fuel. A throw keeps the state reached so far, which is what makes exception
safety a property of programs; exhausted fuel keeps nothing. -/
namespace Program

inductive Outcome (ε σ α : Type) where
  | returned (value : α) (state : σ)
  | thrown (failure : ε) (state : σ)
  | exhausted

def Outcome.returned? {ε σ α : Type} : Outcome ε σ α → Option σ
  | .returned _ t => some t
  | _ => none

theorem Outcome.returned?_eq_some {ε σ α : Type} {o : Outcome ε σ α} {t : σ} :
    o.returned? = some t ↔ ∃ a, o = .returned a t := by
  cases o <;> simp [returned?]

def Outcome.value? {ε σ α : Type} : Outcome ε σ α → Option α
  | .returned a _ => some a
  | _ => none

theorem Outcome.value?_eq_some {ε σ α : Type} {o : Outcome ε σ α} {a : α} :
    o.value? = some a ↔ ∃ t, o = .returned a t := by
  cases o <;> simp [value?]

/-- What a program has thrown, and the state it has left. -/
def Outcome.thrown? {ε σ α : Type} : Outcome ε σ α → Option (ε × σ)
  | .thrown e t => some (e, t)
  | _ => none

theorem Outcome.thrown?_eq_some {ε σ α : Type} {o : Outcome ε σ α} {e : ε} {t : σ} :
    o.thrown? = some (e, t) ↔ o = .thrown e t := by
  cases o <;> simp [thrown?]

/-- The state a program has ended in, by returning or by throwing. -/
def Outcome.ended? {ε σ α : Type} : Outcome ε σ α → Option σ
  | .returned _ t => some t
  | .thrown _ t => some t
  | .exhausted => none

def Prog (ε σ α : Type) : Type := σ → Outcome ε σ α

def FailsOnly {ε α : Type} (allowed : ε → Prop) (result : Except ε α) : Prop :=
  ∀ failure, result = .error failure → allowed failure

namespace FailsOnly

variable {ε α β : Type} {allowed : ε → Prop}

theorem ok (a : α) : FailsOnly allowed (.ok a) := fun _ error => by contradiction

theorem error {failure : ε} (allow : allowed failure) :
    FailsOnly allowed (.error failure : Except ε α) :=
  fun _ error => Except.error.inj error ▸ allow

theorem bind {first : Except ε α} {rest : α → Except ε β} (fails : FailsOnly allowed first)
    (later : ∀ a, FailsOnly allowed (rest a)) : FailsOnly allowed (first >>= rest) := by
  cases first with
  | ok a => exact later a
  | error failure => exact .error (fails failure rfl)

theorem map {result : Except ε α} {f : α → β} (fails : FailsOnly allowed result) :
    FailsOnly allowed (result.map f) := by
  cases result with
  | ok a => exact .ok _
  | error failure => exact .error (fails failure rfl)

end FailsOnly

namespace Prog

variable {ε σ α β : Type}

def andThen (p : Prog ε σ α) (f : α → Prog ε σ β) : Prog ε σ β := fun s =>
  match p s with
  | .returned a t => f a t
  | .thrown e t => .thrown e t
  | .exhausted => .exhausted

instance : Monad (Prog ε σ) where
  pure a := fun s => .returned a s
  bind := andThen

theorem pure_run (a : α) (s : σ) : (pure a : Prog ε σ α) s = .returned a s := rfl

theorem bind_run (p : Prog ε σ α) (f : α → Prog ε σ β) (s : σ) :
    (p >>= f) s = match p s with
      | .returned a t => f a t
      | .thrown e t => .thrown e t
      | .exhausted => .exhausted := rfl

theorem bind_eq_returned {p : Prog ε σ α} {f : α → Prog ε σ β} {s u : σ} {b : β} :
    (p >>= f) s = .returned b u ↔ ∃ a t, p s = .returned a t ∧ f a t = .returned b u := by
  rw [bind_run]
  cases p s <;> simp

theorem bind_of_returned {p : Prog ε σ α} {f : α → Prog ε σ β} {s t : σ} {a : α}
    (first : p s = .returned a t) : (p >>= f) s = f a t := by
  rw [bind_run, first]

theorem bind_of_thrown {p : Prog ε σ α} {f : α → Prog ε σ β} {s t : σ} {e : ε}
    (first : p s = .thrown e t) : (p >>= f) s = .thrown e t := by
  rw [bind_run, first]

theorem pure_eq_returned {a b : α} {s t : σ} :
    (pure a : Prog ε σ α) s = .returned b t ↔ a = b ∧ s = t := by
  rw [pure_run, Outcome.returned.injEq]

def state : Prog ε σ σ := fun s => .returned s s

def update (f : σ → σ) : Prog ε σ Unit := fun s => .returned () (f s)

theorem update_run (f : σ → σ) (s : σ) :
    (update f : Prog ε σ Unit) s = .returned () (f s) := rfl

def fail (e : ε) : Prog ε σ α := fun s => .thrown e s

def exhaust : Prog ε σ α := fun _ => .exhausted

/-- Nothing is done unless a condition stands against going on. -/
def failIf (c : Prop) [Decidable c] (e : ε) : Prog ε σ Unit := if c then fail e else pure ()

theorem failIf_eq_returned {c : Prop} [Decidable c] {e : ε} {s t : σ} {u : Unit} :
    failIf c e s = .returned u t ↔ ¬c ∧ s = t := by
  unfold failIf
  by_cases h : c
  · simp [h, fail]
  · simp [h, pure_run]

def ofExcept : Except ε α → Prog ε σ α
  | .ok a => pure a
  | .error e => fail e

theorem ofExcept_ok_bind {a : α} {f : α → Prog ε σ β} : ofExcept (.ok a) >>= f = f a := rfl

def forEach (f : α → Prog ε σ Unit) : List α → Prog ε σ Unit
  | [] => pure ()
  | a :: rest => do
    f a
    forEach f rest

/-- The concatenated results of a list-valued program over a list. -/
def collect (f : α → Prog ε σ (List β)) : List α → Prog ε σ (List β)
  | [] => pure []
  | a :: rest => do
    let front ← f a
    let back ← collect f rest
    pure (front ++ back)

def onlyIf (c : Prop) [Decidable c] (p : Prog ε σ Unit) : Prog ε σ Unit :=
  if c then p else pure ()

def whenSome : Option α → (α → Prog ε σ Unit) → Prog ε σ Unit
  | some a, f => f a
  | none, _ => pure ()

/-- The second attempt is made if the first one finds nothing. -/
def orElse (first second : Prog ε σ (Option α)) : Prog ε σ (Option α) := do
  match ← first with
  | some a => pure (some a)
  | none => second

def attempt (p : Prog ε σ Unit) : Prog ε σ Unit := fun s =>
  match p s with
  | .returned _ t => .returned () t
  | .thrown _ t => .returned () t
  | .exhausted => .exhausted

/-- One contract for the three outcomes. `short` is what exhausted fuel implies:
`True` gives partial correctness, and a bound on the fuel gives termination. -/
def Ensures (p : Prog ε σ α) (s : σ) (post : α → σ → Prop) (error : ε → σ → Prop)
    (short : Prop) : Prop :=
  match p s with
  | .returned a t => post a t
  | .thrown e t => error e t
  | .exhausted => short

variable {s t : σ} {post post' : α → σ → Prop} {error error' : ε → σ → Prop}
  {short short' : Prop}

@[simp] theorem ensures_pure (a : α) :
    Ensures (pure a) s post error short ↔ post a s := Iff.rfl

@[simp] theorem ensures_bind (p : Prog ε σ α) (f : α → Prog ε σ β) (post : β → σ → Prop) :
    Ensures (p >>= f) s post error short ↔
      Ensures p s (fun a t => Ensures (f a) t post error short) error short := by
  simp only [Ensures, bind_run]
  cases p s <;> rfl

@[simp] theorem ensures_state {post : σ → σ → Prop} :
    Ensures state s post error short ↔ post s s := Iff.rfl

@[simp] theorem ensures_update (f : σ → σ) {post : Unit → σ → Prop} :
    Ensures (update f) s post error short ↔ post () (f s) := Iff.rfl

@[simp] theorem ensures_fail (e : ε) :
    Ensures (fail e) s post error short ↔ error e s := Iff.rfl

@[simp] theorem ensures_exhaust :
    Ensures (exhaust : Prog ε σ α) s post error short ↔ short := Iff.rfl

@[simp] theorem ensures_ite {c : Prop} [Decidable c] (p q : Prog ε σ α) :
    Ensures (if c then p else q) s post error short ↔
      (c → Ensures p s post error short) ∧ (¬c → Ensures q s post error short) := by
  by_cases h : c <;> simp [h]

@[simp] theorem ensures_onlyIf {c : Prop} [Decidable c] (p : Prog ε σ Unit)
    {post : Unit → σ → Prop} :
    Ensures (onlyIf c p) s post error short ↔
      (c → Ensures p s post error short) ∧ (¬c → post () s) :=
  ensures_ite ..

@[simp] theorem ensures_failIf {c : Prop} [Decidable c] (e : ε) {post : Unit → σ → Prop} :
    Ensures (failIf c e) s post error short ↔ (c → error e s) ∧ (¬c → post () s) :=
  ensures_ite ..

theorem ensures_whenSome (o : Option α) (f : α → Prog ε σ Unit) {post : Unit → σ → Prop} :
    Ensures (whenSome o f) s post error short ↔
      (∀ a, o = some a → Ensures (f a) s post error short) ∧ (o = none → post () s) := by
  cases o <;> simp [whenSome]

theorem ensures_ofExcept (x : Except ε α) :
    Ensures (ofExcept x) s post error short ↔
      (∀ a, x = .ok a → post a s) ∧ (∀ e, x = .error e → error e s) := by
  cases x <;> simp [ofExcept]

theorem ensures_attempt {p : Prog ε σ Unit} {post : Unit → σ → Prop} :
    Ensures (attempt p) s post error short ↔
      Ensures p s post (fun _ t => post () t) short := by
  simp only [Ensures, attempt]
  cases p s <;> rfl

theorem ensures_always {p : Prog ε σ α} (returns : ∀ a t, post a t) (throws : ∀ e t, error e t)
    (exhausts : short) : Ensures p s post error short := by
  unfold Ensures
  split
  · exact returns _ _
  · exact throws _ _
  · exact exhausts

theorem Ensures.mono {p : Prog ε σ α} (h : Ensures p s post error short)
    (returns : ∀ a t, post a t → post' a t) (throws : ∀ e t, error e t → error' e t)
    (exhausts : short → short') : Ensures p s post' error' short' := by
  unfold Ensures at *
  split <;> simp_all

theorem Ensures.imp {p : Prog ε σ α} (h : Ensures p s post error short)
    (returns : ∀ a t, post a t → post' a t) : Ensures p s post' error short :=
  h.mono returns (fun _ _ h => h) id

theorem Ensures.and {p : Prog ε σ α} (h : Ensures p s post error short)
    (h' : Ensures p s post' error' short') :
    Ensures p s (fun a t => post a t ∧ post' a t) (fun e t => error e t ∧ error' e t)
      (short ∧ short') := by
  unfold Ensures at *
  split <;> simp_all

theorem Ensures.under {p : Prog ε σ α} {condition : Prop} (h : Ensures p s post error short)
    (h' : condition → Ensures p s post' error' short') :
    Ensures p s (fun a t => post a t ∧ (condition → post' a t)) error short := by
  by_cases holds : condition
  · exact (h.and (h' holds)).mono (fun _ _ both => ⟨both.1, fun _ => both.2⟩)
      (fun _ _ both => both.1) And.left
  · exact h.mono (fun _ _ first => ⟨first, fun given => absurd given holds⟩)
      (fun _ _ first => first) id

theorem Ensures.unbounded {p : Prog ε σ α} (h : Ensures p s post error short) :
    Ensures p s post error True :=
  h.mono (fun _ _ h => h) (fun _ _ h => h) fun _ => trivial

theorem Ensures.traced {p : Prog ε σ α} (h : Ensures p s post error short) :
    Ensures p s (fun a t => p s = .returned a t ∧ post a t) error short := by
  unfold Ensures at *
  cases run : p s <;> simp_all

theorem Ensures.bind {p : Prog ε σ α} {f : α → Prog ε σ β} {mid : α → σ → Prop}
    {post : β → σ → Prop} (first : Ensures p s mid error short)
    (second : ∀ a t, mid a t → Ensures (f a) t post error short) :
    Ensures (p >>= f) s post error short :=
  (ensures_bind ..).mpr (first.mono second (fun _ _ h => h) id)

theorem Ensures.bind_exhausted {p : Prog ε σ α} {f : α → Prog ε σ β} {mid : α → σ → Prop}
    {post : β → σ → Prop} (first : Ensures p s mid (fun _ _ => False) short)
    (second : ∀ a t, mid a t → Ensures (f a) t post error True) :
    Ensures (p >>= f) s post error True :=
  (ensures_bind ..).mpr (first.mono second (fun _ _ h => h.elim) fun _ => trivial)

theorem Ensures.bind_throwless {p : Prog ε σ α} {f : α → Prog ε σ β} {mid : α → σ → Prop}
    {post : β → σ → Prop} (first : Ensures p s mid (fun _ _ => False) short)
    (second : ∀ a t, mid a t → Ensures (f a) t post error short) :
    Ensures (p >>= f) s post error short :=
  (ensures_bind ..).mpr (first.mono second (fun _ _ h => h.elim) id)

theorem ensures_orElse {first second : Prog ε σ (Option α)} {post : Option α → σ → Prop}
    (h : Ensures first s (fun r t => (∀ a, r = some a → post (some a) t) ∧
      (r = none → Ensures second t post error short)) error short) :
    Ensures (orElse first second) s post error short := by
  refine h.bind fun r t ⟨found, missed⟩ => ?_
  cases r with
  | none => exact missed rfl
  | some a => exact found a rfl

theorem Ensures.returned {p : Prog ε σ α} {a : α} (h : Ensures p s post error short)
    (run : p s = .returned a t) : post a t := by
  simpa [Ensures, run] using h

theorem Ensures.thrown {p : Prog ε σ α} {e : ε} (h : Ensures p s post error short)
    (run : p s = .thrown e t) : error e t := by
  simpa [Ensures, run] using h

theorem Ensures.returns {p : Prog ε σ α} (h : Ensures p s post (fun _ _ => False) short)
    (enough : ¬short) : ∃ a t, p s = .returned a t ∧ post a t := by
  unfold Ensures at h
  split at h
  · exact ⟨_, _, by assumption, h⟩
  · exact h.elim
  · exact (enough h).elim

theorem Ensures.throws {p : Prog ε σ α} (h : Ensures p s (fun _ _ => False) error short)
    (enough : ¬short) : ∃ e t, p s = .thrown e t ∧ error e t := by
  unfold Ensures at h
  split at h
  · exact h.elim
  · exact ⟨_, _, by assumption, h⟩
  · exact (enough h).elim

theorem ensures_forEach_append (f : α → Prog ε σ Unit) (xs ys : List α)
    {post : Unit → σ → Prop} :
    Ensures (forEach f (xs ++ ys)) s post error short ↔
      Ensures (forEach f xs) s (fun _ t => Ensures (forEach f ys) t post error short)
        error short := by
  induction xs generalizing s with
  | nil => rfl
  | cons x rest ih =>
    rw [List.cons_append, forEach, forEach, ensures_bind, ensures_bind]
    simp only [ih]

theorem ensures_forEach_each (invariant : σ → Prop) (settled : α → Prop) (f : α → Prog ε σ Unit)
    (xs : List α)
    (step : ∀ a ∈ xs, ∀ t, invariant t →
      Ensures (f a) t (fun _ u => invariant u ∧ settled a) error short)
    (initial : invariant s) :
    Ensures (forEach f xs) s (fun _ t => invariant t ∧ ∀ a ∈ xs, settled a) error short := by
  induction xs generalizing s with
  | nil => exact ⟨initial, by simp⟩
  | cons a rest ih =>
    refine (step a (by simp) s initial).bind fun _ t ⟨kept, here⟩ => ?_
    refine (ih (fun b hb => step b (by simp [hb])) kept).imp ?_
    intro _ u after
    rcases after with ⟨kept, there⟩
    exact ⟨kept, List.forall_mem_cons.mpr ⟨here, there⟩⟩

theorem forEach_run {f : α → Prog ε σ Unit} {effect : σ → α → σ} {xs : List α}
    (each : ∀ a ∈ xs, ∀ s, f a s = .returned () (effect s a)) :
    forEach f xs s = .returned () (xs.foldl effect s) := by
  induction xs generalizing s with
  | nil => rfl
  | cons a rest ih =>
    rw [forEach, bind_of_returned (each a (by simp) s)]
    exact ih fun b member => each b (by simp [member])

theorem ensures_forEach (invariant : σ → Prop) (f : α → Prog ε σ Unit) (xs : List α)
    (step : ∀ a ∈ xs, ∀ t, invariant t → Ensures (f a) t (fun _ => invariant) error short)
    (initial : invariant s) : Ensures (forEach f xs) s (fun _ => invariant) error short := by
  refine (ensures_forEach_each invariant (fun _ => True) f xs (fun a member t kept => ?_)
    initial).mono (fun _ _ h => h.1) (fun _ _ h => h) id
  exact (step a member t kept).mono (fun _ _ h => ⟨h, trivial⟩) (fun _ _ h => h) id

/-- A loop as a relation: its steps, one after the other. -/
inductive Steps (R : α → σ → σ → Prop) : List α → σ → σ → Prop where
  | nil (s : σ) : Steps R [] s s
  | cons {a : α} {rest : List α} {s t u : σ} : R a s t → Steps R rest t u →
      Steps R (a :: rest) s u

theorem steps_append {R : α → σ → σ → Prop} {xs ys : List α} {s u : σ} :
    Steps R (xs ++ ys) s u ↔ ∃ t, Steps R xs s t ∧ Steps R ys t u := by
  induction xs generalizing s with
  | nil =>
    refine ⟨fun steps => ⟨s, .nil s, steps⟩, ?_⟩
    rintro ⟨t, ⟨⟩, steps⟩
    exact steps
  | cons x rest ih =>
    constructor
    · intro either
      rcases either with _ | ⟨step, steps⟩
      obtain ⟨t, first, second⟩ := ih.mp steps
      exact ⟨t, .cons step first, second⟩
    · rintro ⟨t, _ | ⟨step, first⟩, second⟩
      exact .cons step (ih.mpr ⟨t, first, second⟩)

theorem steps_singleton {R : α → σ → σ → Prop} {a : α} {s u : σ} : Steps R [a] s u ↔ R a s u := by
  constructor
  · intro either
    rcases either with _ | ⟨step, ⟨⟩⟩
    exact step
  · exact fun step => .cons step (.nil u)

theorem ensures_forEach_steps {R : α → σ → σ → Prop} (invariant : σ → Prop)
    (f : α → Prog ε σ Unit) (xs : List α)
    (step : ∀ a ∈ xs, ∀ t, invariant t →
      Ensures (f a) t (fun _ u => R a t u ∧ invariant u) error short)
    (initial : invariant s) :
    Ensures (forEach f xs) s (fun _ t => Steps R xs s t ∧ invariant t) error short := by
  induction xs generalizing s with
  | nil => exact ⟨.nil s, initial⟩
  | cons a rest ih =>
    refine (step a (by simp) s initial).bind fun _ t ⟨here, kept⟩ => ?_
    refine (ih (fun b hb => step b (by simp [hb])) kept).imp ?_
    intro _ u after
    rcases after with ⟨there, kept⟩
    exact ⟨.cons here there, kept⟩

theorem ensures_collect (f : α → Prog ε σ (List β)) (xs : List α) (result : α → List β → Prop)
    (step : ∀ a ∈ xs, Ensures (f a) s (fun bs t => t = s ∧ result a bs) error short) :
    Ensures (collect f xs) s (fun bs t => t = s ∧ ∃ parts, List.Forall₂ result xs parts ∧
      bs = parts.flatten) error short := by
  induction xs with
  | nil => exact ⟨rfl, [], .nil, rfl⟩
  | cons a rest ih =>
    refine (step a (by simp)).bind fun front t ⟨same, here⟩ => ?_
    subst same
    refine (ih fun b hb => step b (by simp [hb])).bind fun back t ⟨same, parts, there, eq⟩ => ?_
    exact ⟨same, front :: parts, .cons here there, by simp [eq]⟩

/-- However a program ends, the state it ends in is related to the one it began in. -/
def Keeps (R : σ → σ → Prop) (p : Prog ε σ α) : Prop :=
  ∀ s, p.Ensures s (fun _ t => R s t) (fun _ t => R s t) True

namespace Keeps

variable {R : σ → σ → Prop} [IsPreorder σ R]

omit [IsPreorder σ R] in
theorem ended {p : Prog ε σ α} (kept : Keeps R p) {s t : σ} (ended : (p s).ended? = some t) :
    R s t := by
  have here := kept s
  revert here ended
  unfold Ensures
  cases p s with
  | returned a u =>
    rintro ⟨⟩ here
    exact here
  | thrown e u =>
    rintro ⟨⟩ here
    exact here
  | exhausted => exact fun ended => absurd ended (by simp [Outcome.ended?])

theorem pure (a : α) : Keeps R (Pure.pure a : Prog ε σ α) := fun s => refl_of R s

theorem state : Keeps R (state : Prog ε σ σ) := fun s => refl_of R s

theorem fail (e : ε) : Keeps R (fail e : Prog ε σ α) := fun s => refl_of R s

omit [IsPreorder σ R] in
theorem exhaust : Keeps R (exhaust : Prog ε σ α) := fun _ => trivial

omit [IsPreorder σ R] in
theorem update {f : σ → σ} (kept : ∀ s, R s (f s)) : Keeps R (update f : Prog ε σ Unit) := kept

theorem ofExcept (x : Except ε α) : Keeps R (ofExcept x : Prog ε σ α) := by
  cases x with
  | ok a => exact .pure a
  | error e => exact .fail e

theorem bind {p : Prog ε σ α} {f : α → Prog ε σ β} (first : Keeps R p)
    (second : ∀ a, Keeps R (f a)) : Keeps R (p >>= f) := by
  intro s
  refine (ensures_bind ..).mpr ((first s).mono (fun a t kept => ?_) (fun _ _ h => h) id)
  exact (second a t).mono (fun _ _ h => trans_of R kept h) (fun _ _ h => trans_of R kept h) id

omit [IsPreorder σ R] in
theorem follow {p : Prog ε σ α} {f : α → Prog ε σ β} {post : β → σ → Prop} (first : Keeps R p)
    (second : ∀ a t, R s t → Ensures (f a) t post (fun _ _ => True) True) :
    Ensures (p >>= f) s post (fun _ _ => True) True :=
  Ensures.bind ((first s).mono (fun _ _ kept => kept) (fun _ _ _ => trivial) id) second

omit [IsPreorder σ R] in
theorem ite {c : Prop} [Decidable c] {p q : Prog ε σ α} (yes : Keeps R p) (no : Keeps R q) :
    Keeps R (if c then p else q) := by
  split
  · exact yes
  · exact no

theorem onlyIf {c : Prop} [Decidable c] {p : Prog ε σ Unit} (body : Keeps R p) :
    Keeps R (onlyIf c p) := ite body (.pure ())

theorem whenSome {o : Option α} {f : α → Prog ε σ Unit} (body : ∀ a, Keeps R (f a)) :
    Keeps R (whenSome o f) := by
  cases o with
  | some a => exact body a
  | none => exact .pure ()

theorem forEach {f : α → Prog ε σ Unit} (body : ∀ a, Keeps R (f a)) (xs : List α) :
    Keeps R (forEach f xs) := by
  induction xs with
  | nil => exact .pure ()
  | cons a rest ih => exact .bind (body a) fun _ => ih

theorem collect {f : α → Prog ε σ (List β)} (body : ∀ a, Keeps R (f a)) (xs : List α) :
    Keeps R (collect f xs) := by
  induction xs with
  | nil => exact .pure []
  | cons a rest ih => exact .bind (body a) fun _ => .bind ih fun _ => .pure _

theorem orElse {first second : Prog ε σ (Option α)} (one : Keeps R first)
    (other : Keeps R second) : Keeps R (orElse first second) := by
  refine .bind one fun found => ?_
  cases found with
  | some a => exact .pure _
  | none => exact other

end Keeps

/-- A run of programs, each of which has enough fuel and ends by returning or by throwing. -/
inductive Runs {ι : Type} (step : ℕ → ι → Prog ε σ α) : List ι → σ → σ → Prop where
  | nil (start : σ) : Runs step [] start start
  | cons {fuel : ℕ} {i : ι} {rest : List ι} {start next last : σ} :
      (step fuel i start).ended? = some next → Runs step rest next last →
      Runs step (i :: rest) start last

theorem Keeps.runs {ι : Type} {step : ℕ → ι → Prog ε σ α} {R : σ → σ → Prop} [IsPreorder σ R]
    (kept : ∀ fuel i, (step fuel i).Keeps R) {is : List ι} {t : σ} (run : Runs step is s t) :
    R s t := by
  induction run with
  | nil => exact refl_of R _
  | @cons fuel i _ _ _ _ ended _ ih => exact trans_of R ((kept fuel i).ended ended) ih

/-- Where a run ends, if the fuel is enough for each of its programs. -/
def follow {ι : Type} (step : ι → Prog ε σ α) : List ι → σ → Option σ
  | [], s => some s
  | i :: rest, s => (step i s).ended?.bind (follow step rest)

theorem Runs.of_follow {ι : Type} {step : ℕ → ι → Prog ε σ α} {fuel : ℕ} {is : List ι} {s t : σ}
    (run : follow (step fuel) is s = some t) : Runs step is s t := by
  induction is generalizing s with
  | nil => exact Option.some.inj run ▸ .nil s
  | cons i rest ih =>
    obtain ⟨_, ended, run⟩ := Option.bind_eq_some_iff.mp run
    exact .cons ended (ih run)

def zoom {τ : Type} (get : τ → σ) (set : τ → σ → τ) (p : Prog ε σ α) : Prog ε τ α := fun t =>
  match p (get t) with
  | .returned a s => .returned a (set t s)
  | .thrown e s => .thrown e (set t s)
  | .exhausted => .exhausted

@[simp] theorem ensures_zoom {τ : Type} {get : τ → σ} {set : τ → σ → τ} {p : Prog ε σ α} {t : τ}
    {post : α → τ → Prop} {error : ε → τ → Prop} :
    (p.zoom get set).Ensures t post error short ↔
      p.Ensures (get t) (fun a s => post a (set t s)) (fun e s => error e (set t s)) short := by
  simp only [Ensures, zoom]
  cases p (get t) <;> rfl

/-- A program runs on a changed state as it does on the state itself. -/
def Commutes (f : σ → σ) (p : Prog ε σ α) : Prop := ∀ s,
  p (f s) = match p s with
    | .returned a t => .returned a (f t)
    | .thrown e t => .thrown e (f t)
    | .exhausted => .exhausted

namespace Commutes

variable {f : σ → σ}

theorem ensures {p : Prog ε σ α} (commutes : Commutes f p)
    (h : p.Ensures s (fun a t => post a (f t)) (fun e t => error e (f t)) short) :
    p.Ensures (f s) post error short := by
  unfold Ensures at *
  rw [commutes s]
  cases result : p s <;> simp_all

theorem pure (a : α) : Commutes f (Pure.pure a : Prog ε σ α) := fun _ => rfl

theorem fail (e : ε) : Commutes f (fail e : Prog ε σ α) := fun _ => rfl

theorem exhaust : Commutes f (exhaust : Prog ε σ α) := fun _ => rfl

theorem update {g : σ → σ} (commutes : ∀ s, g (f s) = f (g s)) :
    Commutes f (update g : Prog ε σ Unit) := fun s => congrArg (Outcome.returned ()) (commutes s)

theorem bind {p : Prog ε σ α} {q : α → Prog ε σ β} (first : Commutes f p)
    (second : ∀ a, Commutes f (q a)) : Commutes f (p >>= q) := by
  intro s
  rw [bind_run, bind_run, first s]
  cases p s with
  | returned a t => exact second a t
  | thrown e t => rfl
  | exhausted => rfl

theorem read {q : σ → Prog ε σ β} (same : ∀ s, q (f s) = q s) (rest : ∀ s, Commutes f (q s)) :
    Commutes f (state >>= q) := by
  intro s
  change q (f s) (f s) = _
  rw [same s, rest s s]
  rfl

theorem ite {c : Prop} [Decidable c] {p q : Prog ε σ α} (yes : Commutes f p)
    (no : Commutes f q) : Commutes f (if c then p else q) := by
  split
  · exact yes
  · exact no

theorem onlyIf {c : Prop} [Decidable c] {p : Prog ε σ Unit} (body : Commutes f p) :
    Commutes f (onlyIf c p) := ite body (.pure ())

theorem whenSome {o : Option α} {q : α → Prog ε σ Unit} (body : ∀ a, Commutes f (q a)) :
    Commutes f (whenSome o q) := by
  cases o with
  | some a => exact body a
  | none => exact .pure ()

theorem collect {q : α → Prog ε σ (List β)} (body : ∀ a, Commutes f (q a)) (xs : List α) :
    Commutes f (collect q xs) := by
  induction xs with
  | nil => exact .pure []
  | cons a rest ih => exact .bind (body a) fun _ => .bind ih fun _ => .pure _

end Commutes

end Prog

end Program
