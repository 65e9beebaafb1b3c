import Miral.Library.Program

/-! Visiting a tree that is given by the children of each of its nodes: a node comes before its
children, and these come in order. -/
namespace Program

open Prog

variable {α ε σ : Type} {children : α → List α} {roots visited : List α} {a : α}

/-- The nodes below `roots`, each as often as it is reached. -/
inductive Walk (children : α → List α) : List α → List α → Prop where
  | nil : Walk children [] []
  | cons {a : α} {roots below after : List α} : Walk children (children a) below →
      Walk children roots after → Walk children (a :: roots) (a :: (below ++ after))

namespace Walk

theorem unique (walk : Walk children roots visited) {visited' : List α}
    (walk' : Walk children roots visited') : visited = visited' := by
  induction walk generalizing visited' with
  | nil =>
    cases walk'
    rfl
  | cons _ _ ihBelow ihAfter =>
    cases walk' with
    | cons below after => rw [ihBelow below, ihAfter after]

theorem acc (walk : Walk children roots visited) :
    ∀ a ∈ roots, Acc (fun c p => c ∈ children p) a := by
  induction walk with
  | nil => simp
  | cons _ _ below after =>
    intro b member
    rcases List.mem_cons.mp member with rfl | other
    · exact ⟨_, fun c child => below c child⟩
    · exact after b other

end Walk

/-- The program that visits the nodes below one, each of which tells its children. -/
def visit (node : α → Prog ε σ (List α)) : ℕ → α → Prog ε σ Unit
  | 0, _ => exhaust
  | fuel + 1, a => do
    let below ← node a
    forEach (visit node fuel) below

section

variable {node : α → Prog ε σ (List α)} {effect : α → σ → σ}
  {s : σ} (ends : ∀ a s, node a s = .returned (children a) (effect a s))

include ends

/-- Every node that is visited has its effect, in order. -/
theorem ensures_visit (fuel : ℕ) (s : σ) : (visit node fuel a).Ensures s
    (fun _ t => ∃ visited, Walk children [a] visited ∧ t = visited.foldl (fun s a => effect a s) s)
    (fun _ _ => False) True := by
  induction fuel generalizing a s with
  | zero => trivial
  | succ fuel ih =>
    have each (roots : List α) (s : σ) : (forEach (visit node fuel) roots).Ensures s
        (fun _ t => ∃ visited, Walk children roots visited ∧
          t = visited.foldl (fun s a => effect a s) s) (fun _ _ => False) True := by
      induction roots generalizing s with
      | nil => exact ⟨[], .nil, rfl⟩
      | cons b rest others =>
        refine (ih (a := b) s).bind fun _ t first => ?_
        obtain ⟨_, walk, rfl⟩ := first
        refine (others _).mono (fun _ u after => ?_) (fun _ _ h => h) id
        obtain ⟨after, walk', rfl⟩ := after
        cases walk with
        | cons below nothing =>
          cases nothing
          exact ⟨_, .cons below walk', by simp [List.foldl_append]⟩
    rw [visit, ensures_bind, Ensures, ends]
    refine (each (children a) _).mono (fun _ t below => ?_) (fun _ _ h => h) id
    obtain ⟨below, walk, rfl⟩ := below
    exact ⟨_, .cons walk .nil, by simp⟩

/-- A bound on the depth of what is below the node is enough fuel. -/
theorem visit_ends (accessible : Acc (fun c p => c ∈ children p) a) :
    ∃ n, ∀ fuel ≥ n, ∀ s, (visit node fuel a).Ensures s (fun _ _ => True) (fun _ _ => False)
      False := by
  have bounded (roots : List α) (each : ∀ c ∈ roots, ∃ n, ∀ fuel ≥ n, ∀ s,
      (visit node fuel c).Ensures s (fun _ _ => True) (fun _ _ => False) False) :
      ∃ n, ∀ fuel ≥ n, ∀ c ∈ roots, ∀ s, (visit node fuel c).Ensures s (fun _ _ => True)
        (fun _ _ => False) False := by
    induction roots with
    | nil => exact ⟨0, by simp⟩
    | cons c rest ih =>
      obtain ⟨n, enough⟩ := each c (by simp)
      obtain ⟨m, others⟩ := ih fun d member => each d (by simp [member])
      refine ⟨max n m, fun fuel le d member s => ?_⟩
      rcases List.mem_cons.mp member with rfl | other
      · exact enough fuel (by omega) s
      · exact others fuel (by omega) d other s
  induction accessible with
  | intro a _ ih =>
    obtain ⟨n, enough⟩ := bounded (children a) ih
    refine ⟨n + 1, fun fuel le s => ?_⟩
    obtain ⟨fuel, rfl⟩ : ∃ m, fuel = m + 1 := ⟨fuel - 1, by omega⟩
    rw [visit, ensures_bind, Ensures, ends]
    exact ensures_forEach (fun _ => True) _ _ (fun c child t _ => enough fuel (by omega) c child t)
      trivial

theorem visit_returns_iff : (∃ fuel t, visit node fuel a s = .returned () t) ↔
    Acc (fun c p => c ∈ children p) a := by
  constructor
  · rintro ⟨fuel, t, run⟩
    obtain ⟨_, walk, -⟩ := (ensures_visit ends fuel s).returned run
    exact walk.acc a (by simp)
  · intro accessible
    obtain ⟨n, enough⟩ := visit_ends ends accessible
    obtain ⟨_, t, run, -⟩ := (enough n (Nat.le_refl n) s).returns id
    exact ⟨n, t, run⟩

end

end Program
