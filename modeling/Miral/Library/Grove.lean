import Miral.Library.Forest

/-! Forests whose nodes belong to groups: the changes that build, prune and regroup them,
and what these keep. Being a forest and having whole trees in the same groups are both at
risk from one change only, the one that hangs a node on another parent. -/
namespace Forest

structure Grove (V K : Type) where
  parent : V → Option V
  member : K → V → Prop

namespace Grove

variable {V K : Type} {g g' : Grove V K} {a b : V}

def Acyclic (g : Grove V K) : Prop := ∀ v, Rooted g.parent v

/-- A node is in the groups of its parent. -/
def Uniform (g : Grove V K) : Prop :=
  ∀ v p, g.parent v = some p → ∀ k, g.member k v ↔ g.member k p

theorem Uniform.sameTree (uniform : g.Uniform) (same : SameTree g.parent a b) (k : K) :
    g.member k a ↔ g.member k b :=
  same.congr (g.member k) fun v p link => uniform v p link k

theorem Uniform.above (uniform : g.Uniform) (h : Above g.parent a b) (k : K) :
    g.member k b ↔ g.member k a := by
  obtain ⟨n, reached⟩ := h
  induction n generalizing b with
  | zero =>
    obtain rfl := Option.some.inj reached
    rfl
  | succ n ih =>
    cases link : g.parent b with
    | none => rw [climb_root link] at reached; contradiction
    | some p => exact (uniform b p link k).trans (ih (climb_link link n ▸ reached))

/-- One change. `links v p` is what allows `v` to be hung on `p`. -/
inductive Step [DecidableEq V] (links : V → V → Prop) (g g' : Grove V K) : Prop where
  | stay : (∀ v, g'.parent v = g.parent v) → (∀ k v, g'.member k v ↔ g.member k v) →
      Step links g g'
  /-- A new node, alone or below a parent whose groups its tree joins. -/
  | enter (w : V) (parent : Option V) (joined : K → V → Prop) :
      parent ≠ some w → (∀ v, g.parent v ≠ some w) → (∀ k, ¬g.member k w) →
      (∀ v, g'.parent v = if v = w then parent else g.parent v) →
      (∀ k v, g'.member k v ↔ g.member k v ∨ joined k v) →
      (∀ k v p, g'.parent v = some p → (joined k v ↔ joined k p)) →
      (∀ k, joined k w ↔ ∃ p, parent = some p ∧ g.member k p) → Step links g g'
  | hang (w p : V) : links w p → (∀ v, g'.parent v = if v = w then some p else g.parent v) →
      (∀ k v, g'.member k v ↔ g.member k v) → Step links g g'
  | detach (w : V) : (∀ v, g'.parent v = if v = w then none else g.parent v) →
      (∀ k v, g'.member k v ↔ g.member k v) → Step links g g'
  /-- A node leaves, and its children lose their parent. -/
  | leave (w : V) : (∀ v, g'.parent v = if v = w ∨ g.parent v = some w then none
      else g.parent v) → (∀ k v, g'.member k v ↔ v ≠ w ∧ g.member k v) → Step links g g'
  /-- Groups change, and what is done to a node is done to its whole tree. -/
  | regroup : (∀ v, g'.parent v = g.parent v) →
      (g.Uniform → ∀ v p, g.parent v = some p → ∀ k, g'.member k v ↔ g'.member k p) →
      Step links g g'

variable [DecidableEq V] {links : V → V → Prop}

theorem Step.mono {links' : V → V → Prop} (step : Step links g g')
    (weaker : ∀ v p, links v p → links' v p) : Step links' g g' := by
  cases step with
  | stay parents members => exact .stay parents members
  | enter w parent joined other childless fresh parents members closed joins =>
    exact .enter w parent joined other childless fresh parents members closed joins
  | hang w p link parents members => exact .hang w p (weaker w p link) parents members
  | detach w parents members => exact .detach w parents members
  | leave w parents members => exact .leave w parents members
  | regroup parents members => exact .regroup parents members

/-- A link after a change is an old one, one that is allowed, or that of a new node. -/
theorem Step.link (step : Step links g g') {v p : V} (link : g'.parent v = some p) :
    g.parent v = some p ∨ links v p ∨ ∀ k, ¬g.member k v := by
  cases step with
  | stay parents => exact .inl ((parents v).symm.trans link)
  | regroup parents => exact .inl ((parents v).symm.trans link)
  | enter w parent joined _ _ fresh parents =>
    rw [parents] at link
    split at link
    · rename_i eq
      exact .inr (.inr (eq ▸ fresh))
    · exact .inl link
  | hang w q allowed parents =>
    rw [parents] at link
    split at link
    · rename_i eq
      exact .inr (.inl (eq ▸ Option.some.inj link ▸ allowed))
    · exact .inl link
  | detach w parents =>
    rw [parents] at link
    split at link
    · contradiction
    · exact .inl link
  | leave w parents =>
    rw [parents] at link
    split at link
    · contradiction
    · exact .inl link

theorem Step.acyclic (step : Step links g g') (acyclic : g.Acyclic)
    (apart : ∀ v p, links v p → ¬Above g.parent v p) : g'.Acyclic := by
  intro v
  cases step with
  | stay parents =>
    exact (acyclic v).cut fun v => .inl (parents v)
  | enter w parent joined other childless _ parents =>
    have others (v : V) (ne : v ≠ w) : g'.parent v = g.parent v := by simp [parents, ne]
    cases target : parent with
    | none =>
      apply (acyclic v).cut
      intro u
      by_cases eq : u = w
      · exact .inr (by simp [parents, eq, target])
      · exact .inl (others u eq)
    | some p =>
      refine .graft (fun u ne => .inl (others u ne)) (by simp [parents, target]) ?_ (acyclic p)
        (acyclic v)
      -- Nothing was below the new node.
      exact not_above_childless childless fun eq => other (target.trans (congrArg some eq))
  | hang w p link parents =>
    exact .graft (fun u ne => .inl (by simp [parents, ne])) (by simp [parents])
      (apart w p link) (acyclic p) (acyclic v)
  | detach w parents =>
    apply (acyclic v).cut
    intro u
    by_cases eq : u = w
    · exact .inr (by simp [parents, eq])
    · exact .inl (by simp [parents, eq])
  | leave w parents =>
    apply (acyclic v).cut
    intro u
    by_cases eq : u = w ∨ g.parent u = some w
    · exact .inr (by simp [parents, eq])
    · exact .inl (by rw [parents, if_neg eq])
  | regroup parents => exact (acyclic v).cut fun v => .inl (parents v)

theorem Step.uniform (step : Step links g g') (uniform : g.Uniform)
    (alike : ∀ v p, links v p → ∀ k, g.member k v ↔ g.member k p) : g'.Uniform := by
  intro v p link k
  cases step with
  | stay parents members =>
    rw [members, members]
    exact uniform v p ((parents v).symm.trans link) k
  | enter w parent joined other childless fresh parents members closed joins =>
    rw [members, members, closed k v p link]
    by_cases eq : v = w
    · subst eq
      rw [parents, if_pos rfl] at link
      -- The new node is in no group yet, and joins those of its parent.
      have shared : joined k p ↔ g.member k p := by
        rw [← closed k v p (by simp [parents, link]), joins, link]
        simp
      simp [fresh, shared]
    · rw [parents, if_neg eq] at link
      rw [uniform v p link k]
  | hang w q allowed parents members =>
    rw [members, members]
    by_cases eq : v = w
    · subst eq
      rw [parents, if_pos rfl] at link
      obtain rfl := Option.some.inj link
      exact alike v q allowed k
    · rw [parents, if_neg eq] at link
      exact uniform v p link k
  | detach w parents members =>
    rw [members, members]
    rw [parents] at link
    split at link
    · contradiction
    · exact uniform v p link k
  | leave w parents members =>
    rw [members, members]
    rw [parents] at link
    split at link
    · contradiction
    · rename_i kept
      simp only [not_or] at kept
      have ne : p ≠ w := by
        rintro rfl
        exact kept.2 link
      simp [kept.1, ne, uniform v p link k]
  | regroup parents members => exact members uniform v p ((parents v).symm.trans link) k

end Grove

end Forest
