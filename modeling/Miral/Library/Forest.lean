import Mathlib.Data.Option.Basic
import Mathlib.Data.List.Basic
import Mathlib.Logic.Relation
import Mathlib.Data.List.Forall2
import Mathlib.Data.Set.Defs

/-! Forests given by parent links. A link may lead anywhere, so being a forest is a
property of the links: `Rooted` says that climbing from a node ends. -/
namespace Forest

variable {V : Type} {parent parent' : V → Option V} {a b p v w : V}

/-- The node reached by following `n` links, or nothing once a root has been left. -/
def climb (parent : V → Option V) : Nat → V → Option V
  | 0, v => some v
  | n + 1, v => (parent v).bind (climb parent n)

def Rooted (parent : V → Option V) (v : V) : Prop := ∃ n, climb parent n v = none

/-- `a` is `v` or one of its ancestors. -/
def Above (parent : V → Option V) (a v : V) : Prop := ∃ n, climb parent n v = some a

@[simp] theorem climb_zero : climb parent 0 v = some v := rfl

theorem climb_root (root : parent v = none) (n : Nat) : climb parent (n + 1) v = none := by
  simp [climb, root]

theorem climb_link (link : parent v = some p) (n : Nat) :
    climb parent (n + 1) v = climb parent n p := by
  simp [climb, link]

theorem climb_add (m n : Nat) (v : V) :
    climb parent (m + n) v = (climb parent m v).bind (climb parent n) := by
  induction m generalizing v with
  | zero => simp
  | succ m ih =>
    rw [Nat.succ_add]
    cases link : parent v with
    | none => rw [climb_root link, climb_root link]; rfl
    | some p => rw [climb_link link, climb_link link, ih]

theorem climb_none_mono {m n : Nat} (ended : climb parent m v = none) (le : m ≤ n) :
    climb parent n v = none := by
  obtain ⟨k, rfl⟩ := Nat.exists_eq_add_of_le le
  rw [climb_add, ended]
  rfl

theorem climb_parent_none {n : Nat} (ended : climb parent (n + 1) v = none)
    (link : parent v = some p) : climb parent n p = none := by
  rwa [climb_link link] at ended

theorem Rooted.of_root (root : parent v = none) : Rooted parent v := ⟨1, climb_root root 0⟩

theorem rooted_link (link : parent v = some p) : Rooted parent v ↔ Rooted parent p := by
  constructor
  · rintro ⟨n, ended⟩
    exact ⟨n, climb_parent_none (climb_none_mono ended (Nat.le_succ n)) link⟩
  · rintro ⟨n, ended⟩
    exact ⟨n + 1, (climb_link link n).trans ended⟩

theorem Above.refl : Above parent v v := ⟨0, rfl⟩

theorem Above.link (link : parent v = some p) (h : Above parent a p) : Above parent a v := by
  obtain ⟨n, reached⟩ := h
  exact ⟨n + 1, (climb_link link n).trans reached⟩

theorem Above.trans (h : Above parent a b) (h' : Above parent b v) : Above parent a v := by
  obtain ⟨m, first⟩ := h'
  obtain ⟨n, second⟩ := h
  exact ⟨m + n, by rw [climb_add, first]; exact second⟩

theorem Above.eq_of_root (root : parent v = none) (h : Above parent a v) : a = v := by
  obtain ⟨n, reached⟩ := h
  cases n with
  | zero => exact (Option.some.inj reached).symm
  | succ n => rw [climb_root root] at reached; contradiction

theorem above_iff_strict :
    Above parent a v ↔ v = a ∨ ∃ n, climb parent (n + 1) v = some a := by
  constructor
  · rintro ⟨n, reached⟩
    cases n with
    | zero => exact .inl (Option.some.inj reached)
    | succ n => exact .inr ⟨n, reached⟩
  · intro either
    rcases either with rfl | ⟨n, reached⟩
    · exact ⟨0, rfl⟩
    · exact ⟨n + 1, reached⟩

theorem above_link (link : parent v = some p) :
    Above parent a v ↔ a = v ∨ Above parent a p := by
  rw [above_iff_strict, eq_comm]
  simp only [climb_link link, Above]

theorem climb_loop {n : Nat} (loop : climb parent (n + 1) v = some v) (k : Nat) :
    climb parent (k * (n + 1)) v = some v := by
  induction k with
  | zero => simp
  | succ k ih => rw [Nat.succ_mul, climb_add, ih]; exact loop

theorem not_rooted_of_loop {n : Nat} (loop : climb parent (n + 1) v = some v) :
    ¬Rooted parent v := by
  rintro ⟨m, ended⟩
  have late := climb_none_mono ended (Nat.le_mul_of_pos_right m (Nat.succ_pos n))
  rw [climb_loop loop m] at late
  contradiction

theorem climb_last {n : Nat} (reached : climb parent (n + 1) v = some a) :
    ∃ b, climb parent n v = some b ∧ parent b = some a := by
  rw [climb_add, Option.bind_eq_some_iff] at reached
  obtain ⟨b, up, link⟩ := reached
  exact ⟨b, up, by simpa [climb] using link⟩

theorem Above.comparable (h : Above parent a v) (h' : Above parent b v) :
    Above parent a b ∨ Above parent b a := by
  obtain ⟨m, up⟩ := h
  obtain ⟨n, up'⟩ := h'
  rcases Nat.le_total m n with le | le
  · refine .inr ⟨n - m, ?_⟩
    rw [← Nat.add_sub_cancel' le, climb_add, up] at up'
    exact up'
  · refine .inl ⟨m - n, ?_⟩
    rw [← Nat.add_sub_cancel' le, climb_add, up'] at up
    exact up

theorem Rooted.not_above_parent (rooted : Rooted parent v) (link : parent v = some p) :
    ¬Above parent v p := by
  rintro ⟨n, reached⟩
  exact not_rooted_of_loop ((climb_link link n).trans reached) rooted

theorem Above.antisymm (rooted : Rooted parent v) (h : Above parent a v)
    (h' : Above parent v a) : a = v := by
  cases link : parent v with
  | none => exact h.eq_of_root link
  | some p =>
    rcases (above_link link).mp h with eq | above
    · exact eq
    · exact absurd (h'.trans above) (rooted.not_above_parent link)

theorem Above.sibling {c c' : V} (rooted : Rooted parent p) (link : parent c = some p)
    (link' : parent c' = some p) (h : Above parent c v) (h' : Above parent c' v) : c = c' := by
  have apart {x : V} (above : parent x = some p) : ¬Above parent x p :=
    ((rooted_link above).mpr rooted).not_above_parent above
  rcases h.comparable h' with above | above
  · rcases (above_link link').mp above with eq | higher
    · exact eq
    · exact absurd higher (apart link)
  · rcases (above_link link).mp above with eq | higher
    · exact eq.symm
    · exact absurd higher (apart link')

theorem exists_topmost (kind : V → Prop) (rooted : Rooted parent v)
    (found : ∃ a, Above parent a v ∧ kind a) :
    ∃ a, Above parent a v ∧ kind a ∧ ∀ b, kind b → Above parent b a → b = a := by
  obtain ⟨n, ended⟩ := rooted
  induction n generalizing v with
  | zero => simp at ended
  | succ n ih =>
    obtain ⟨a, above, here⟩ := found
    cases link : parent v with
    | none =>
      obtain rfl := above.eq_of_root link
      exact ⟨a, above, here, fun b _ h => h.eq_of_root link⟩
    | some p =>
      by_cases higher : ∃ a, Above parent a p ∧ kind a
      · obtain ⟨b, above', here', topmost⟩ := ih higher (climb_parent_none ended link)
        exact ⟨b, .link link above', here', topmost⟩
      · have only (b : V) (h : Above parent b v) (is : kind b) : b = v :=
          ((above_link link).mp h).resolve_right fun above' => higher ⟨b, above', is⟩
        obtain rfl := only a above here
        exact ⟨a, above, here, fun b is h => only b h is⟩

theorem climb_cut {n : Nat} (fewer : ∀ v, parent' v = parent v ∨ parent' v = none)
    (ended : climb parent n v = none) : climb parent' n v = none := by
  induction n generalizing v with
  | zero => simp at ended
  | succ n ih =>
    cases link : parent' v with
    | none => exact climb_root link n
    | some p =>
      have old : parent v = some p := by
        rcases fewer v with same | gone
        · rw [← same, link]
        · rw [gone] at link; contradiction
      exact (climb_link link n).trans (ih (climb_parent_none ended old))

theorem Rooted.cut (fewer : ∀ v, parent' v = parent v ∨ parent' v = none)
    (rooted : Rooted parent v) : Rooted parent' v := by
  obtain ⟨n, ended⟩ := rooted
  exact ⟨n, climb_cut fewer ended⟩

theorem Rooted.avoid (others : ∀ v, v ≠ w → parent' v = parent v ∨ parent' v = none)
    (rooted : Rooted parent v) (apart : ¬Above parent w v) : Rooted parent' v := by
  obtain ⟨n, ended⟩ := rooted
  induction n generalizing v with
  | zero => simp at ended
  | succ n ih =>
    have ne : v ≠ w := fun eq => apart (eq ▸ .refl)
    cases link : parent' v with
    | none => exact .of_root link
    | some p =>
      have old : parent v = some p := by
        rcases others v ne with same | gone
        · rw [← same, link]
        · rw [gone] at link; contradiction
      exact (rooted_link link).mpr
        (ih (fun above => apart (.link old above)) (climb_parent_none ended old))

theorem Rooted.graft (others : ∀ v, v ≠ w → parent' v = parent v ∨ parent' v = none)
    (grafted : parent' w = some p) (apart : ¬Above parent w p)
    (target : Rooted parent p) (rooted : Rooted parent v) : Rooted parent' v := by
  have top : Rooted parent' w := (rooted_link grafted).mpr (target.avoid others apart)
  obtain ⟨n, ended⟩ := rooted
  induction n generalizing v with
  | zero => simp at ended
  | succ n ih =>
    by_cases eq : v = w
    · exact eq ▸ top
    cases link : parent' v with
    | none => exact .of_root link
    | some q =>
      have old : parent v = some q := by
        rcases others v eq with same | gone
        · rw [← same, link]
        · rw [gone] at link; contradiction
      exact (rooted_link link).mpr (ih (climb_parent_none ended old))

theorem exists_depth (vs : List V) (rooted : ∀ v ∈ vs, Rooted parent v) :
    ∃ d, ∀ v ∈ vs, climb parent d v = none := by
  induction vs with
  | nil => exact ⟨0, by simp⟩
  | cons v vs ih =>
    obtain ⟨d, bound⟩ := ih fun u hu => rooted u (by simp [hu])
    obtain ⟨n, ended⟩ := rooted v (by simp)
    refine ⟨max d n, fun u hu => ?_⟩
    rcases List.mem_cons.mp hu with rfl | hu
    · exact climb_none_mono ended (Nat.le_max_right d n)
    · exact climb_none_mono (bound u hu) (Nat.le_max_left d n)

/-- The trees of a forest: nodes joined by links in either direction. -/
def SameTree (parent : V → Option V) : V → V → Prop :=
  Relation.EqvGen fun v p => parent v = some p

theorem SameTree.congr (property : V → Prop)
    (respected : ∀ v p, parent v = some p → (property v ↔ property p))
    (h : SameTree parent a b) : property a ↔ property b := by
  induction h with
  | rel v p link => exact respected v p link
  | refl => exact Iff.rfl
  | symm _ _ _ ih => exact ih.symm
  | trans _ _ _ _ _ ih ih' => exact ih.trans ih'

theorem Above.sameTree (h : Above parent a v) : SameTree parent a v := by
  obtain ⟨n, reached⟩ := h
  induction n generalizing v with
  | zero =>
    obtain rfl := Option.some.inj reached
    exact .refl v
  | succ n ih =>
    cases link : parent v with
    | none =>
      rw [climb_root link] at reached
      contradiction
    | some p =>
      rw [climb_link link] at reached
      exact (ih reached).trans _ _ _ (.symm _ _ (.rel v p link))

/-- The nodes below the root above `w`. -/
def tree (parent : V → Option V) (w : V) : Set V :=
  {v | ∃ root, parent root = none ∧ Above parent root w ∧ Above parent root v}

theorem Above.root_unique {root root' : V} (top : parent root = none) (top' : parent root' = none)
    (h : Above parent root v) (h' : Above parent root' v) : root = root' := by
  rcases h.comparable h' with above | above
  · exact above.eq_of_root top'
  · exact (above.eq_of_root top).symm

theorem mem_tree {root : V} (top : parent root = none) (h : Above parent root w) :
    v ∈ tree parent w ↔ Above parent root v := by
  constructor
  · rintro ⟨root', top', above, below⟩
    obtain rfl := h.root_unique top top' above
    exact below
  · exact fun below => ⟨root, top, h, below⟩

theorem tree_closed (link : parent v = some p) : v ∈ tree parent w ↔ p ∈ tree parent w := by
  refine exists_congr fun root => and_congr_right fun top => and_congr_right fun _ => ?_
  rw [above_link link, or_iff_right]
  rintro rfl
  rw [top] at link
  contradiction

section Enter

variable (others : ∀ v, v ≠ w → parent' v = parent v) (childless : ∀ v, parent v ≠ some w)

include others childless

/-- A node that is hung somewhere, with nothing below it, changes no climb but its own. -/
theorem climb_enter (n : Nat) (ne : v ≠ w) : climb parent' n v = climb parent n v := by
  induction n generalizing v with
  | zero => rfl
  | succ n ih =>
    have same := others v ne
    cases link : parent v with
    | none => rw [climb_root link, climb_root (same.trans link)]
    | some p =>
      rw [climb_link link, climb_link (same.trans link)]
      apply ih
      rintro rfl
      exact childless v link

theorem above_enter (ne : v ≠ w) : Above parent' a v ↔ Above parent a v := by
  simp only [Above, climb_enter others childless _ ne]

omit others in
theorem not_above_childless (ne : v ≠ w) : ¬Above parent w v := by
  rintro ⟨n, reached⟩
  cases n with
  | zero => exact ne (Option.some.inj reached)
  | succ n =>
    obtain ⟨u, -, link⟩ := climb_last reached
    exact childless u link

theorem Rooted.enter (entered : parent' w = some p) (ne : p ≠ w)
    (rooted : ∀ v, Rooted parent v) (v : V) : Rooted parent' v := by
  have apart (v : V) (ne : v ≠ w) : Rooted parent' v := by
    obtain ⟨n, ended⟩ := rooted v
    exact ⟨n, (climb_enter others childless n ne).trans ended⟩
  by_cases eq : v = w
  · subst eq
    exact (rooted_link entered).mpr (apart p ne)
  · exact apart v eq

theorem tree_enter (entered : parent' w = some p) (ne : p ≠ w) (other : v ≠ w) :
    v ∈ tree parent' w ↔ v ∈ tree parent p := by
  have apart (root : V) (top : parent' root = none) : root ≠ w := by
    rintro rfl
    rw [entered] at top
    contradiction
  constructor
  · rintro ⟨root, top, above, below⟩
    have out := apart root top
    refine ⟨root, (others root out).symm.trans top, ?_, (above_enter others childless other).mp below⟩
    rw [above_link entered, above_enter others childless ne] at above
    exact above.resolve_left out
  · rintro ⟨root, top, above, below⟩
    have out : root ≠ w := by
      rintro rfl
      exact not_above_childless childless ne above
    refine ⟨root, (others root out).trans top, ?_, (above_enter others childless other).mpr below⟩
    exact .link entered ((above_enter others childless ne).mpr above)

end Enter

/-- A list of the nodes of a tree in which no node comes after one of its children. -/
structure Walk (parent : V → Option V) (root : V) (nodes : List V) : Prop where
  mem : ∀ v, v ∈ nodes ↔ Above parent root v
  ordered : nodes.Pairwise fun a b => a ≠ b ∧ parent a ≠ some b

theorem Walk.nodup {root : V} {nodes : List V} (walk : Walk parent root nodes) : nodes.Nodup :=
  walk.ordered.imp And.left

theorem Above.unlinked {c c' root x y : V} (rooted : Rooted parent root)
    (link : parent c = some root) (link' : parent c' = some root) (ne : c ≠ c')
    (h : Above parent c x) (h' : Above parent c' y) : x ≠ y ∧ parent x ≠ some y := by
  constructor
  · rintro rfl
    exact ne (h.sibling rooted link link' h')
  · intro up
    rcases (above_link up).mp h with rfl | above
    · -- the parent of the first child would be below the second one
      obtain rfl := Option.some.inj (link.symm.trans up)
      exact ((rooted_link link').mpr rooted).not_above_parent link' h'
    · exact ne (above.sibling rooted link link' h')

theorem exists_mate {A B : Type} {related : A → B → Prop} {xs : List A} {ys : List B}
    (h : List.Forall₂ related xs ys) {y : B} (member : y ∈ ys) : ∃ x ∈ xs, related x y := by
  induction h with
  | nil => simp at member
  | cons here _ ih =>
    rcases List.mem_cons.mp member with rfl | member
    · exact ⟨_, by simp, here⟩
    · obtain ⟨x, listed, there⟩ := ih member
      exact ⟨x, by simp [listed], there⟩

/-- A walk of a tree is its root and then the walks of its subtrees. -/
theorem Walk.node {root : V} {children : List V} {parts : List (List V)}
    (rooted : Rooted parent root) (distinct : children.Nodup)
    (links : ∀ c, c ∈ children ↔ parent c = some root)
    (walks : List.Forall₂ (Walk parent) children parts) :
    Walk parent root (root :: parts.flatten) := by
  have listed (v : V) : v ∈ parts.flatten ↔ ∃ c ∈ children, Above parent c v := by
    clear distinct links
    induction walks with
    | nil => simp
    | cons walk _ ih => simp [walk.mem, ih]
  have below (v : V) : v ∈ parts.flatten ↔ ∃ n, climb parent (n + 1) v = some root := by
    rw [listed]
    constructor
    · rintro ⟨c, member, n, up⟩
      exact ⟨n, by rw [climb_add, up]; simp [climb, (links c).mp member]⟩
    · rintro ⟨n, reached⟩
      obtain ⟨c, up, link⟩ := climb_last reached
      exact ⟨c, (links c).mpr link, n, up⟩
  have strict (v : V) (member : v ∈ parts.flatten) : v ≠ root := by
    rintro rfl
    obtain ⟨n, around⟩ := (below v).mp member
    exact not_rooted_of_loop around rooted
  constructor
  · intro v
    rw [List.mem_cons, below, above_iff_strict]
  · rw [List.pairwise_cons]
    constructor
    · intro v member
      refine ⟨Ne.symm (strict v member), fun up => ?_⟩
      obtain ⟨n, reached⟩ := (below v).mp member
      exact rooted.not_above_parent up ⟨n + 1, reached⟩
    · clear listed below strict
      rw [List.pairwise_flatten]
      have children_links : ∀ c ∈ children, parent c = some root := fun c => (links c).mp
      clear links
      induction walks with
      | nil => exact ⟨by simp, .nil⟩
      | @cons c part rest parts' walk walks ih =>
        obtain ⟨fresh, distinct⟩ := List.nodup_cons.mp distinct
        obtain ⟨inner, outer⟩ := ih distinct fun c member => children_links c (by simp [member])
        refine ⟨List.forall_mem_cons.mpr ⟨walk.ordered, inner⟩, .cons ?_ outer⟩
        intro part' member x first y second
        obtain ⟨c', listed, walk'⟩ := exists_mate walks member
        have ne : c ≠ c' := by
          rintro rfl
          exact fresh listed
        exact Above.unlinked rooted (children_links c (by simp))
          (children_links c' (by simp [listed])) ne ((walk.mem x).mp first) ((walk'.mem y).mp second)

/-- A list with parents before children that is one tree rooted at its first node. -/
structure OneTree (parent : V → Option V) (nodes : List V) : Prop where
  ordered : nodes.Pairwise fun a b => parent a ≠ some b
  rooted : ∀ v ∈ nodes.tail, ∃ p ∈ nodes, parent v = some p

/-- A node of a set whose parent is not in the set. -/
def IsTop (parent : V → Option V) (nodes : Set V) (v : V) : Prop :=
  v ∈ nodes ∧ ∀ p ∈ nodes, parent v ≠ some p

/-- At most one node of a set has its parent outside. -/
def OneTop (parent : V → Option V) (nodes : Set V) : Prop :=
  ∀ v v', IsTop parent nodes v → IsTop parent nodes v' → v = v'

theorem oneTree_singleton (v : V) : OneTree parent [v] := ⟨List.pairwise_singleton _ _, by simp⟩

/-- An ordered list is one tree if and only if at most one of its nodes has its parent
outside. -/
theorem oneTree_iff {nodes : List V} (single : nodes.Nodup)
    (ordered : nodes.Pairwise fun a b => parent a ≠ some b)
    (rooted : ∀ v ∈ nodes, Rooted parent v) :
    OneTree parent nodes ↔ OneTop parent {v | v ∈ nodes} := by
  cases nodes with
  | nil => exact ⟨fun _ v _ top => (nomatch top.1), fun _ => ⟨.nil, by simp⟩⟩
  | cons first rest =>
    obtain ⟨fresh, -⟩ := List.nodup_cons.mp single
    have top : IsTop parent {v | v ∈ first :: rest} first := by
      refine ⟨List.mem_cons_self, fun p member link => ?_⟩
      rcases List.mem_cons.mp member with rfl | later
      · exact (rooted p member).not_above_parent link .refl
      · exact (List.pairwise_cons.mp ordered).1 p later link
    constructor
    · rintro tree v v' ⟨member, outside⟩ ⟨member', outside'⟩
      have only (v : V) (member : v ∈ first :: rest)
          (outside : ∀ p ∈ first :: rest, parent v ≠ some p) : v = first := by
        apply (List.mem_cons.mp member).resolve_right
        intro later
        obtain ⟨p, listed, link⟩ := tree.rooted v later
        exact outside p listed link
      exact (only v member outside).trans (only v' member' outside').symm
    · intro one
      refine ⟨ordered, fun v later => ?_⟩
      by_contra unlinked
      have outside : IsTop parent {v | v ∈ first :: rest} v :=
        ⟨List.mem_cons_of_mem _ later, fun p listed link => unlinked ⟨p, listed, link⟩⟩
      exact fresh (one v first outside top ▸ later)

/-- A list is one tree if and only if it is ordered and at most one of its nodes has its
parent outside. -/
theorem oneTree_iff_ordered {nodes : List V} (single : nodes.Nodup)
    (rooted : ∀ v ∈ nodes, Rooted parent v) : OneTree parent nodes ↔
      (nodes.Pairwise fun a b => parent a ≠ some b) ∧ OneTop parent {v | v ∈ nodes} := by
  refine ⟨fun tree => ⟨tree.ordered, ?_⟩, fun ⟨ordered, one⟩ => ?_⟩
  · exact (oneTree_iff single tree.ordered rooted).mp tree
  · exact (oneTree_iff single ordered rooted).mpr one

theorem exists_isTop {nodes : Set V} (rooted : Rooted parent v) (member : v ∈ nodes) :
    ∃ a, Above parent a v ∧ IsTop parent nodes a := by
  obtain ⟨a, above, here, topmost⟩ := exists_topmost (· ∈ nodes) rooted ⟨v, .refl, member⟩
  refine ⟨a, above, here, fun p there link => ?_⟩
  obtain rfl := topmost p there (.link link .refl)
  obtain ⟨n, reached⟩ := above
  have grounded : Rooted parent p := by
    obtain ⟨m, ended⟩ := rooted
    refine ⟨m, ?_⟩
    have late := climb_none_mono ended (Nat.le_add_left m n)
    rw [climb_add, reached] at late
    exact late
  exact grounded.not_above_parent link .refl

theorem climb_le_length [DecidableEq V] {nodes : List V} {n : Nat} (rooted : Rooted parent v)
    (linked : ∀ u, Above parent u v → (parent u).isSome → u ∈ nodes)
    (reached : climb parent n v = some a) : n ≤ nodes.length := by
  induction n generalizing v nodes with
  | zero => exact Nat.zero_le _
  | succ n ih =>
    cases link : parent v with
    | none =>
      rw [climb_root link] at reached
      contradiction
    | some p =>
      rw [climb_link link] at reached
      have member : v ∈ nodes := linked v .refl (by simp [link])
      have fewer : n ≤ (nodes.erase v).length := by
        refine ih ((rooted_link link).mp rooted) (fun u above some => ?_) reached
        have ne : u ≠ v := by
          rintro rfl
          exact rooted.not_above_parent link above
        exact (List.mem_erase_of_ne ne).mpr (linked u (.link link above) some)
      have pos := List.length_pos_of_mem member
      rw [List.length_erase_of_mem member] at fewer
      omega

/-- How many links lead up to `a`, if these are at most `depth`. -/
def level [DecidableEq V] (parent : V → Option V) (depth : Nat) (a v : V) : Option Nat :=
  (List.range (depth + 1)).find? fun n => climb parent n v = some a

section Level

variable [DecidableEq V] {depth n : Nat}

theorem climb_of_level (found : level parent depth a v = some n) :
    climb parent n v = some a := by
  simpa using List.find?_some found

theorem not_above_of_level (bound : ∀ n, climb parent n v = some a → n ≤ depth)
    (missing : level parent depth a v = none) : ¬Above parent a v := by
  rintro ⟨n, reached⟩
  have apart := List.find?_eq_none.mp missing n
    (List.mem_range.mpr (Nat.lt_succ_of_le (bound n reached)))
  exact apart (decide_eq_true reached)

end Level

end Forest
