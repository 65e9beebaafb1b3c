import Mathlib.Data.List.Basic

/-! A token that at most one party is to hold at a time, seen through the signals that tell
who gained and who lost it. -/
namespace Token

inductive Signal (V : Type) where
  | gained (v : V)
  | lost (v : V)
  /-- The party is gone, whether it held the token or not. -/
  | gone (v : V)
  deriving DecidableEq

variable {V : Type} [DecidableEq V]

def Signal.apply (holders : List V) : Signal V → List V
  | gained v => v :: holders.filter (· ≠ v)
  | lost v | gone v => holders.filter (· ≠ v)

/-- Only a holder loses the token, and nobody gains it from under another holder. -/
def Signal.Proper (holders : List V) : Signal V → Prop
  | gained v => ∀ holder ∈ holders, holder = v
  | lost v => v ∈ holders
  | gone _ => True

def holders (signals : List (Signal V)) : List V := signals.foldl Signal.apply []

/-- Every signal is proper when it is sent. -/
def Orderly (signals : List (Signal V)) : Prop :=
  ∀ front signal back, signals = front ++ signal :: back → signal.Proper (holders front)

variable {signals : List (Signal V)} {signal : Signal V} {holder : Option V} {v : V}

theorem holders_concat : holders (signals ++ [signal]) = signal.apply (holders signals) := by
  simp [holders]

theorem orderly_nil : Orderly ([] : List (Signal V)) := by
  intro front signal back eq
  simp at eq

theorem Orderly.concat (orderly : Orderly signals) (proper : signal.Proper (holders signals)) :
    Orderly (signals ++ [signal]) := by
  intro front middle back eq
  rcases List.eq_nil_or_concat back with rfl | ⟨rest, last, rfl⟩
  · obtain ⟨rfl, same⟩ := List.append_inj' eq rfl
    obtain rfl := List.singleton_inj.mp same
    exact proper
  · rw [List.concat_eq_append, ← List.cons_append, ← List.append_assoc] at eq
    obtain ⟨before, -⟩ := List.append_inj' eq rfl
    exact orderly front middle rest before

/-- The signals of a handover from the holder, if there is one, to `v`. -/
def handover (holder : Option V) (v : V) : List (Signal V) :=
  (match holder with
    | some prev => if prev ≠ v then [.lost prev] else []
    | none => []) ++ [.gained v]

theorem holders_gone (held : holders signals = holder.toList) :
    holders (signals ++ [.gone v]) = (if holder = some v then none else holder).toList := by
  rw [holders_concat, held]
  cases holder with
  | none => rfl
  | some prev =>
    by_cases eq : prev = v
    · simp [Signal.apply, eq]
    · simp [Signal.apply, eq]

theorem Orderly.pass (orderly : Orderly signals) (held : holders signals = holder.toList)
    (v : V) :
    Orderly (signals ++ handover holder v) ∧ holders (signals ++ handover holder v) = [v] := by
  unfold handover
  cases holder with
  | none =>
    refine ⟨orderly.concat fun other member => ?_, ?_⟩
    · simp [held] at member
    · simp [holders_concat, held, Signal.apply]
  | some prev =>
    by_cases same : prev = v
    · subst same
      have again : Signal.Proper (holders signals) (.gained prev) := by
        simp [Signal.Proper, held]
      exact ⟨by simpa using orderly.concat again, by simp [holders_concat, held, Signal.apply]⟩
    · have lost : Orderly (signals ++ [.lost prev]) := orderly.concat (by simp [Signal.Proper, held])
      have free : holders (signals ++ [.lost prev]) = [] := by
        simp [holders_concat, held, Signal.apply]
      simp only [ne_eq, same, not_false_eq_true, ↓reduceIte, ← List.append_assoc]
      refine ⟨lost.concat fun other member => ?_, ?_⟩
      · simp [free] at member
      · rw [holders_concat, free]
        rfl

theorem Orderly.take (orderly : Orderly signals) (free : holders signals = [])
    (known : ∀ prev, holder = some prev → prev = v) :
    Orderly (signals ++ handover holder v) ∧ holders (signals ++ handover holder v) = [v] := by
  have only : handover holder v = [.gained v] := by
    unfold handover
    cases holder with
    | none => rfl
    | some prev => simp [known prev rfl]
  rw [only]
  refine ⟨orderly.concat fun other member => ?_, ?_⟩
  · simp [free] at member
  · rw [holders_concat, free]
    rfl

theorem Orderly.release (orderly : Orderly signals) (held : holders signals = [v]) :
    Orderly (signals ++ [.lost v]) ∧ holders (signals ++ [.lost v]) = [] := by
  refine ⟨orderly.concat (by simp [Signal.Proper, held]), ?_⟩
  simp [holders_concat, held, Signal.apply]

end Token
