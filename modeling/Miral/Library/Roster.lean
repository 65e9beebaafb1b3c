import Mathlib.Data.List.Nodup

/-! Groups and their members, kept as a list of pairs in the order they joined, and the
changes of it that somebody else can follow. -/
namespace Roster

variable {K V : Type} [DecidableEq K]

def members (pairs : List (K × V)) (k : K) : List V :=
  (pairs.filter fun pair => pair.1 = k).map Prod.snd

theorem mem_members {pairs : List (K × V)} {k : K} {v : V} :
    v ∈ members pairs k ↔ (k, v) ∈ pairs := by
  simp [members]

theorem members_nodup {pairs : List (K × V)} (distinct : pairs.Nodup) (k : K) :
    (members pairs k).Nodup := by
  refine List.Nodup.map_on ?_ (distinct.filter _)
  rintro ⟨a, v⟩ first ⟨b, w⟩ second (same : v = w)
  have here := (List.mem_filter.mp first).2
  have there := (List.mem_filter.mp second).2
  simp_all

/-- Some members join a group, or leave it. -/
inductive Change (K V : Type) where
  | join (group : K) (members : List V)
  | leave (group : K) (members : List V)
  deriving DecidableEq

variable [DecidableEq V]

namespace Change

def apply (pairs : List (K × V)) : Change K V → List (K × V)
  | join k vs => pairs ++ vs.map (k, ·)
  | leave k vs => pairs.filter fun pair => ¬(pair.1 = k ∧ pair.2 ∈ vs)

/-- A change lists somebody, nobody twice, and only those who are not in the group yet
or, if they leave it, who are. -/
def Exact (pairs : List (K × V)) : Change K V → Prop
  | join k vs => vs ≠ [] ∧ vs.Nodup ∧ ∀ v ∈ vs, (k, v) ∉ pairs
  | leave k vs => vs ≠ [] ∧ vs.Nodup ∧ ∀ v ∈ vs, (k, v) ∈ pairs

/-- What somebody who follows the group `k` makes of a change, if it is exact. -/
def keep (k : K) (known : List V) : Change K V → Option (List V)
  | join k' vs =>
    if k' ≠ k then some known
    else if vs ≠ [] ∧ vs.Nodup ∧ ∀ v ∈ vs, v ∉ known then some (known ++ vs) else none
  | leave k' vs =>
    if k' ≠ k then some known
    else if vs ≠ [] ∧ vs.Nodup ∧ ∀ v ∈ vs, v ∈ known then some (known.filter (· ∉ vs)) else none

variable {pairs : List (K × V)} {change : Change K V} {k k' : K} {v : V} {vs : List V}

theorem mem_join :
    (k, v) ∈ (join k' vs).apply pairs ↔ (k, v) ∈ pairs ∨ k = k' ∧ v ∈ vs := by
  simp only [apply, List.mem_append, List.mem_map, Prod.mk.injEq]
  constructor
  · intro either
    rcases either with old | ⟨u, member, rfl, rfl⟩
    · exact .inl old
    · exact .inr ⟨rfl, member⟩
  · intro either
    rcases either with old | ⟨rfl, member⟩
    · exact .inl old
    · exact .inr ⟨v, member, rfl, rfl⟩

theorem mem_leave :
    (k, v) ∈ (leave k' vs).apply pairs ↔ (k, v) ∈ pairs ∧ ¬(k = k' ∧ v ∈ vs) := by
  rw [apply, List.mem_filter, decide_eq_true_eq]

theorem members_join : members ((join k' vs).apply pairs) k =
    if k' = k then members pairs k ++ vs else members pairs k := by
  by_cases eq : k' = k <;>
    simp [apply, members, List.filter_map, Function.comp_def, eq]

theorem members_leave : members ((leave k' vs).apply pairs) k =
    if k' = k then (members pairs k).filter (· ∉ vs) else members pairs k := by
  rw [members, apply, List.filter_filter]
  by_cases eq : k' = k
  · subst eq
    rw [if_pos rfl, members, List.filter_map, List.filter_filter]
    congr 1
    apply List.filter_congr
    intro pair _
    by_cases here : pair.1 = k' <;> simp [here]
  · rw [if_neg eq, members]
    congr 1
    apply List.filter_congr
    intro pair _
    by_cases here : pair.1 = k <;> simp [here, Ne.symm eq]

theorem apply_nodup (exact : change.Exact pairs) (distinct : pairs.Nodup) :
    (change.apply pairs).Nodup := by
  cases change with
  | join k vs =>
    obtain ⟨-, single, absent⟩ := exact
    refine List.Nodup.append distinct (single.map fun _ _ eq => (Prod.mk.inj eq).2) ?_
    rintro ⟨k', v⟩ old new
    obtain ⟨u, member, eq⟩ := List.mem_map.mp new
    exact absent u member (eq ▸ old)
  | leave k vs => exact distinct.filter _

theorem keep_members (exact : change.Exact pairs) (k : K) :
    change.keep k (members pairs k) = some (members (change.apply pairs) k) := by
  cases change with
  | join k' vs =>
    obtain ⟨nonempty, single, absent⟩ := exact
    rw [members_join, keep]
    by_cases eq : k' = k
    · subst eq
      have fresh : ∀ v ∈ vs, v ∉ members pairs k' := fun v member => by
        rw [mem_members]
        exact absent v member
      rw [if_neg (not_not.mpr rfl), if_pos ⟨nonempty, single, fresh⟩, if_pos rfl]
    · rw [if_pos eq, if_neg eq]
  | leave k' vs =>
    obtain ⟨nonempty, single, present⟩ := exact
    rw [members_leave, keep]
    by_cases eq : k' = k
    · subst eq
      have known : ∀ v ∈ vs, v ∈ members pairs k' := fun v member =>
        mem_members.mpr (present v member)
      rw [if_neg (not_not.mpr rfl), if_pos ⟨nonempty, single, known⟩, if_pos rfl]
    · rw [if_pos eq, if_neg eq]

end Change

def applyAll (pairs : List (K × V)) (changes : List (Change K V)) : List (K × V) :=
  changes.foldl Change.apply pairs

/-- Each change is exact when its turn comes. -/
def ExactAll : List (K × V) → List (Change K V) → Prop
  | _, [] => True
  | pairs, change :: rest => change.Exact pairs ∧ ExactAll (change.apply pairs) rest

variable {pairs : List (K × V)} {changes changes' : List (Change K V)}

theorem applyAll_append :
    applyAll pairs (changes ++ changes') = applyAll (applyAll pairs changes) changes' :=
  List.foldl_append

theorem exactAll_append : ExactAll pairs (changes ++ changes') ↔
    ExactAll pairs changes ∧ ExactAll (applyAll pairs changes) changes' := by
  induction changes generalizing pairs with
  | nil => simp [ExactAll, applyAll]
  | cons change rest ih => simp [ExactAll, ih, and_assoc, applyAll]

theorem ExactAll.nodup (exact : ExactAll pairs changes) (distinct : pairs.Nodup) :
    (applyAll pairs changes).Nodup := by
  induction changes generalizing pairs with
  | nil => exact distinct
  | cons change rest ih => exact ih exact.2 (Change.apply_nodup exact.1 distinct)

theorem ExactAll.keep (exact : ExactAll pairs changes) (k : K) :
    changes.foldlM (Change.keep k) (members pairs k) =
      some (members (applyAll pairs changes) k) := by
  induction changes generalizing pairs with
  | nil => rfl
  | cons change rest ih =>
    rw [List.foldlM_cons, Change.keep_members exact.1]
    exact ih exact.2

theorem mem_applyAll {pair : K × V} (member : pair ∈ applyAll pairs changes) :
    pair ∈ pairs ∨ ∃ vs, .join pair.1 vs ∈ changes := by
  induction changes generalizing pairs with
  | nil => exact .inl member
  | cons change rest ih =>
    rcases ih member with before | ⟨vs, later⟩
    · cases change with
      | join k vs =>
        rcases Change.mem_join.mp before with old | ⟨eq, -⟩
        · exact .inl old
        · exact .inr ⟨vs, by simp [eq]⟩
      | leave k vs => exact .inl (Change.mem_leave.mp before).1
    · exact .inr ⟨vs, by simp [later]⟩

def told (change : List V → Change K V) (vs : List V) : List (Change K V) :=
  if vs = [] then [] else [change vs]

variable {k : K} {vs : List V}

omit [DecidableEq K] [DecidableEq V] in
theorem mem_told {change : List V → Change K V} {other : Change K V}
    (member : other ∈ told change vs) : other = change vs := by
  unfold told at member
  split at member
  · simp at member
  · exact List.mem_singleton.mp member

theorem applyAll_join : applyAll pairs (told (.join k) vs) = pairs ++ vs.map (k, ·) := by
  by_cases none : vs = []
  · simp [told, none, applyAll]
  · simp [told, none, applyAll, Change.apply]

theorem applyAll_leave : applyAll pairs (told (.leave k) vs) =
    pairs.filter fun pair => ¬(pair.1 = k ∧ pair.2 ∈ vs) := by
  by_cases none : vs = []
  · simp [told, none, applyAll]
  · simp [told, none, applyAll, Change.apply]

theorem exactAll_join (single : vs.Nodup) (absent : ∀ v ∈ vs, (k, v) ∉ pairs) :
    ExactAll pairs (told (.join k) vs) := by
  by_cases none : vs = []
  · simp [told, none, ExactAll]
  · simp only [told, none, ↓reduceIte, ExactAll, and_true]
    exact ⟨none, single, absent⟩

theorem exactAll_leave (single : vs.Nodup) (present : ∀ v ∈ vs, (k, v) ∈ pairs) :
    ExactAll pairs (told (.leave k) vs) := by
  by_cases none : vs = []
  · simp [told, none, ExactAll]
  · simp only [told, none, ↓reduceIte, ExactAll, and_true]
    exact ⟨none, single, present⟩

theorem applyAll_leaves (ks : List K) (v : V) :
    applyAll pairs (ks.map (.leave · [v])) =
      pairs.filter fun pair => ¬(pair.1 ∈ ks ∧ pair.2 = v) := by
  induction ks generalizing pairs with
  | nil => simp [applyAll]
  | cons k rest ih =>
    have first : applyAll pairs ((k :: rest).map (.leave · [v])) =
        applyAll ((Change.leave k [v]).apply pairs) (rest.map (.leave · [v])) := rfl
    rw [first, ih, Change.apply, List.filter_filter]
    apply List.filter_congr
    intro pair _
    by_cases own : pair.2 = v <;> by_cases here : pair.1 = k <;> simp [own, here]

theorem exactAll_leaves {ks : List K} {v : V} (single : ks.Nodup)
    (present : ∀ k ∈ ks, (k, v) ∈ pairs) : ExactAll pairs (ks.map (.leave · [v])) := by
  induction ks generalizing pairs with
  | nil => trivial
  | cons k rest ih =>
    obtain ⟨fresh, single⟩ := List.nodup_cons.mp single
    refine ⟨⟨by simp, by simp, by simpa using present k (by simp)⟩, ih single fun k' member => ?_⟩
    rw [Change.mem_leave]
    refine ⟨present k' (by simp [member]), fun ⟨eq, _⟩ => fresh (eq ▸ member)⟩

def Change.listed : Change K V → List V
  | join _ vs => vs
  | leave _ vs => vs

omit [DecidableEq K] [DecidableEq V] in
theorem forall_told {property : List V → Prop} (empty : property []) {change : List V → Change K V}
    (lists : (change vs).listed = vs) :
    (∀ other ∈ told change vs, property other.listed) ↔ property vs := by
  unfold told
  split
  · rename_i none
    simp [none, empty]
  · simp [lists]

def Sorted (before : V → V → Prop) (pairs : List (K × V)) : Prop :=
  ∀ k, (members pairs k).Pairwise before

variable {before : V → V → Prop}

omit [DecidableEq V] in
theorem Sorted.filter (sorted : Sorted before pairs) (kept : K × V → Bool) :
    Sorted before (pairs.filter kept) := fun k =>
  (sorted k).sublist (((List.filter_sublist (p := kept)).filter _).map _)

theorem Sorted.told_leave (sorted : Sorted before pairs) :
    Sorted before (applyAll pairs (told (.leave k) vs)) := by
  rw [applyAll_leave]
  exact sorted.filter _

theorem Sorted.told_join (sorted : Sorted before pairs) (inner : vs.Pairwise before)
    (after : ∀ a ∈ members pairs k, ∀ b ∈ vs, before a b) :
    Sorted before (applyAll pairs (told (.join k) vs)) := by
  intro k'
  by_cases none : vs = []
  · simpa [told, none, applyAll] using sorted k'
  · simp only [told, none, ↓reduceIte, applyAll, List.foldl_cons, List.foldl_nil,
      Change.members_join]
    split
    · rename_i eq
      subst eq
      exact List.pairwise_append.mpr ⟨sorted k, inner, after⟩
    · exact sorted k'

end Roster
