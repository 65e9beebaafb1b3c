import Miral.Integrity

/-! What `select_active_window` does, said without its recursion: the window its search
settles on, and the state a window gaining the focus leaves behind. Searches over several
windows take the first one that settles. -/
namespace Miral

open Program Prog Forest

def Event.quiet : Event → Bool
  | .adviseFocusLost _ | .adviseFocusGained _ | .adviseDeleteWindow _ => false
  | .setFocusTo _ _ | .focusNextSession => false
  | _ => true

namespace Model

variable {s t : Model} {w v c p x : Window} {info : WindowInfo} {r : Option Window}

theorem quiet_trans {u : Model}
    (h : ∃ events, (∀ event ∈ events, event.quiet) ∧ t.log = s.log ++ events)
    (h' : ∃ events, (∀ event ∈ events, event.quiet) ∧ u.log = t.log ++ events) :
    ∃ events, (∀ event ∈ events, event.quiet) ∧ u.log = s.log ++ events := by
  obtain ⟨events, quiet, log⟩ := h
  obtain ⟨events', quiet', log'⟩ := h'
  refine ⟨events ++ events', ?_, by rw [log', log, List.append_assoc]⟩
  intro event member
  rcases List.mem_append.mp member with first | second
  · exact quiet event first
  · exact quiet' event second

/-- Every climb has left the tree after `d` links. -/
def DepthBelow (s : Model) (d : Nat) : Prop := ∀ w, climb s.parentOf d w = none

/-- The fuel is less than every bound on the depth of the trees calls for. -/
def Short (s : Model) (fuel : Nat) : Prop := ∀ d, s.DepthBelow d → fuel < 4 * d

def Acyclic (s : Model) : Prop := ∀ w, s.Managed w → Rooted s.parentOf w

theorem DepthBelow.pos {d : Nat} (bound : s.DepthBelow d) : 0 < d := by
  rcases Nat.eq_zero_or_pos d with rfl | pos
  · exact absurd (bound ⟨0, 0⟩) (by simp)
  · exact pos

theorem DepthBelow.lt {d n : Nat} (bound : s.DepthBelow d)
    (reached : climb s.parentOf n w = some v) : n < d := by
  by_contra le
  rw [climb_none_mono (bound w) (Nat.le_of_not_lt le)] at reached
  contradiction

theorem Acyclic.rooted (acyclic : s.Acyclic) (w : Window) : Rooted s.parentOf w := by
  by_cases managed : s.Managed w
  · exact acyclic w managed
  · refine .of_root ?_
    cases link : s.parentOf w with
    | none => rfl
    | some p => exact absurd (managed_of_parentOf link) managed

theorem Acyclic.exists_depth (acyclic : s.Acyclic) : ∃ d, s.DepthBelow d := by
  obtain ⟨d, bound⟩ := Forest.exists_depth s.windowInfo.keys fun w _ => acyclic.rooted w
  refine ⟨d + 1, fun w => ?_⟩
  by_cases managed : s.Managed w
  · have key : w ∈ s.windowInfo.keys := AList.mem_keys.mp (AList.lookup_isSome.mp managed)
    exact climb_none_mono (bound w key) (Nat.le_succ d)
  · cases link : s.parentOf w with
    | none => exact climb_root link d
    | some p => exact absurd (managed_of_parentOf link) managed

theorem DepthBelow.acyclic {d : Nat} (bound : s.DepthBelow d) : s.Acyclic :=
  fun w _ => ⟨d, bound w⟩

theorem Acyclic.enough (acyclic : s.Acyclic) : ∃ n, ∀ fuel ≥ n, ¬s.Short fuel := by
  obtain ⟨d, bound⟩ := acyclic.exists_depth
  exact ⟨4 * d, fun fuel le short => Nat.not_lt.mpr le (short d bound)⟩

theorem Short.congr {fuel : Nat} (parents : ∀ w, t.parentOf w = s.parentOf w)
    (short : t.Short fuel) : s.Short fuel := by
  have same : t.parentOf = s.parentOf := funext parents
  intro d bound
  exact short d (by rwa [DepthBelow, same])

theorem Short.cut {fuel : Nat} (fewer : ∀ w, t.parentOf w = s.parentOf w ∨ t.parentOf w = none)
    (short : t.Short fuel) : s.Short fuel :=
  fun d bound => short d fun w => climb_cut fewer (bound w)

def emits (s : Model) (events : List Event) : Model := { s with log := s.log ++ events }

/-- The child `select_active_window` turns to. -/
def firstDialog (s : Model) (children : List Window) : Option Window :=
  children.find? fun child => match s.info? child with
    | some info => info.type = .dialog ∧ s.isVisible child info
    | none => false

/-- The window can be given the focus. -/
def Focusable (s : Model) (w : Window) : Prop :=
  ∃ info, s.info? w = some info ∧ info.type.canBeActive ∧ s.isVisible w info

/-- Each surface has the state of its record. -/
def Synced (s : Model) : Prop :=
  ∀ w surface, s.surface? w = some surface → s.stateOf w = some surface.state

theorem Focusable.visible (synced : s.Synced) (focusable : s.Focusable x) : s.visible x := by
  obtain ⟨info, here, -, seen⟩ := focusable
  cases drawn : s.surface? x with
  | none => simp [isVisible, drawn] at seen
  | some surface =>
    have state : some info.state = some surface.state :=
      (stateOf_eq here).symm.trans (synced x surface drawn)
    simp only [isVisible, drawn, Option.some.inj state] at seen
    simpa [Model.visible, drawn] using seen

/-- Where the search that starts from a window ends: at a window that gets the focus, or
at none. -/
inductive Picks (s : Model) : Window → Option Window → Prop where
  | dialog {w c : Window} {info : WindowInfo} {r : Option Window} :
      s.info? w = some info → s.firstDialog info.children = some c → Picks s c r → Picks s w r
  | itself {w : Window} {info : WindowInfo} :
      s.info? w = some info → s.firstDialog info.children = none →
      info.type.canBeActive → s.isVisible w info → Picks s w (some w)
  | parent {w p : Window} {info : WindowInfo} {r : Option Window} :
      s.info? w = some info → s.firstDialog info.children = none →
      ¬(info.type.canBeActive ∧ s.isVisible w info) → s.lock info.parent = some p →
      Picks s p r → Picks s w r
  | nothing {w : Window} {info : WindowInfo} :
      s.info? w = some info → s.firstDialog info.children = none →
      ¬(info.type.canBeActive ∧ s.isVisible w info) → s.lock info.parent = none →
      Picks s w none

/-- The previously active window learns that it loses the focus to another one. -/
def lostTo (s : Model) (x : Window) : List Event :=
  match s.activeWindow with
  | some prev => if prev ≠ x then [.adviseFocusLost prev] else []
  | none => []

/-- The state after `x` got the focus; `raised` is what raising its tree reports. -/
def focusOn (s : Model) (x : Window) (raised : List Event) : Model :=
  { s with
    mruActiveWindows := s.mruActiveWindows.filter (· ≠ x) ++ [x]
    focus := ⟨some x.application, some x⟩
    log := s.log ++ (.setFocusTo (some x.application) (some x) ::
      s.lostTo x ++ .adviseFocusGained x :: raised) }

/-- The state after the selection of a null window. -/
def unfocus (s : Model) (hint : Option Window) : Model :=
  match s.activeWindow with
  | some prev =>
    { s with
      focus := ⟨hint.map Window.application, none⟩
      log := s.log ++ [.setFocusTo (hint.map Window.application) none, .adviseFocusLost prev] }
  | none => s

theorem unfocus_eq {hint : Option Window} (active : s.activeWindow = some w) :
    s.unfocus hint = { s with
      focus := ⟨hint.map Window.application, none⟩
      log := s.log ++ [.setFocusTo (hint.map Window.application) none, .adviseFocusLost w] } := by
  rw [unfocus, active]

/-- The outcome of a selection, given the window it settled on. -/
def Selected (s : Model) : Option Window → Model → Prop
  | some x, t => ∃ raised, (∀ event ∈ raised, event.quiet) ∧ t = s.focusOn x raised
  | none, t => t = s

theorem firstDialog_spec {children : List Window} (found : s.firstDialog children = some c) :
    c ∈ children ∧ ∃ info, s.info? c = some info ∧ info.type = .dialog ∧ s.isVisible c info := by
  refine ⟨List.mem_of_find?_eq_some found, ?_⟩
  have holds := List.find?_some found
  cases here : s.info? c with
  | none => simp [here] at holds
  | some info => exact ⟨info, rfl, by simpa [here] using holds⟩

theorem Picks.focusable (picks : s.Picks w r) : ∀ x, r = some x → s.Focusable x := by
  induction picks with
  | dialog _ _ _ ih => exact ih
  | itself here _ active seen =>
    rintro x ⟨rfl⟩
    exact ⟨_, here, active, seen⟩
  | parent _ _ _ _ _ ih => exact ih
  | nothing => simp

theorem Picks.of_dialog (picks : s.Picks w r) (here : s.info? w = some info)
    (dialog : info.type = .dialog) (seen : s.isVisible w info) : ∃ x, r = some x := by
  induction picks generalizing info with
  | dialog _ found _ ih =>
    obtain ⟨_, childInfo, there, childDialog, childSeen⟩ := firstDialog_spec found
    exact ih there childDialog childSeen
  | itself => exact ⟨_, rfl⟩
  | parent here' _ refused _ _ _ =>
    obtain rfl := Option.some.inj (here'.symm.trans here)
    exact absurd ⟨by simp [dialog, WindowType.canBeActive], seen⟩ refused
  | nothing here' _ refused _ =>
    obtain rfl := Option.some.inj (here'.symm.trans here)
    exact absurd ⟨by simp [dialog, WindowType.canBeActive], seen⟩ refused

theorem Picks.of_focusable (picks : s.Picks w r) (focusable : s.Focusable w) :
    ∃ x, r = some x := by
  obtain ⟨info, here, active, seen⟩ := focusable
  cases picks with
  | dialog here' found rest =>
    obtain ⟨_, childInfo, there, childDialog, childSeen⟩ := firstDialog_spec found
    exact rest.of_dialog there childDialog childSeen
  | itself => exact ⟨_, rfl⟩
  | parent here' _ refused =>
    obtain rfl := Option.some.inj (here'.symm.trans here)
    exact absurd ⟨active, seen⟩ refused
  | nothing here' _ refused =>
    obtain rfl := Option.some.inj (here'.symm.trans here)
    exact absurd ⟨active, seen⟩ refused

theorem Picks.sameTree (integrity : s.Integrity) (picks : s.Picks w r) :
    ∀ x, r = some x → SameTree s.parentOf w x := by
  induction picks with
  | dialog here found _ ih =>
    rintro x rfl
    have link := (integrity.mem_children here).mp (firstDialog_spec found).1
    exact .trans _ _ _ (.symm _ _ (.rel _ _ link)) (ih x rfl)
  | itself =>
    rintro x ⟨rfl⟩
    exact .refl _
  | parent here _ _ locked _ ih =>
    rintro x rfl
    have link := (parentOf_eq here).trans (lock_eq_some.mp locked).1
    exact .trans _ _ _ (.rel _ _ link) (ih x rfl)
  | nothing => simp

theorem Picks.of_any (settles : (s.info? w).any fun info => s.firstDialog info.children = none ∧
    info.type.canBeActive ∧ s.isVisible w info) : s.Picks w (some w) := by
  obtain ⟨info, here, settles⟩ := (Option.any_eq_true _ _).mp settles
  obtain ⟨alone, active, seen⟩ := of_decide_eq_true settles
  exact .itself here alone active seen

theorem Picks.det {r' : Option Window} (picks : s.Picks w r) (picks' : s.Picks w r') :
    r = r' := by
  induction picks generalizing r' with
  | dialog here found _ ih =>
    cases picks' with
    | dialog here' found' rest =>
      obtain rfl := Option.some.inj (here.symm.trans here')
      obtain rfl := Option.some.inj (found.symm.trans found')
      exact ih rest
    | itself here' => simp_all
    | parent here' => simp_all
    | nothing here' => simp_all
  | itself => cases picks' <;> simp_all
  | parent here _ _ locked _ ih =>
    cases picks' with
    | dialog here' => simp_all
    | itself here' => simp_all
    | parent here' _ _ locked' rest =>
      obtain rfl := Option.some.inj (here.symm.trans here')
      obtain rfl := Option.some.inj (locked.symm.trans locked')
      exact ih rest
    | nothing here' => simp_all
  | nothing => cases picks' <;> simp_all

theorem Focusable.live (focusable : s.Focusable w) : s.Live w := by
  obtain ⟨info, _, _, seen⟩ := focusable
  exact isVisible_live seen

theorem Focusable.managed (focusable : s.Focusable w) : s.Managed w := by
  obtain ⟨info, here, _⟩ := focusable
  exact managed_iff.mpr ⟨info, here⟩

theorem sameStructure_emits {events : List Event} : SameStructure s (s.emits events) :=
  .of_frame rfl

theorem sameStructure_focusOn {raised : List Event} : SameStructure s (s.focusOn x raised) :=
  .of_frame rfl

theorem sameStructure_unfocus {hint : Option Window} : SameStructure s (s.unfocus hint) := by
  unfold unfocus
  split
  · exact .of_frame rfl
  · exact .refl

theorem Integrity.emits {events : List Event} (integrity : s.Integrity) :
    (s.emits events).Integrity :=
  integrity.sameStructure sameStructure_emits integrity.mru

theorem Integrity.focusOn {raised : List Event} (integrity : s.Integrity) (managed : s.Managed x) :
    (s.focusOn x raised).Integrity := by
  apply integrity.sameStructure sameStructure_focusOn
  intro v member
  rcases List.mem_append.mp member with kept | new
  · exact integrity.mru v (List.mem_of_mem_filter kept)
  · rwa [List.mem_singleton.mp new]

theorem Integrity.unfocus {hint : Option Window} (integrity : s.Integrity) :
    (s.unfocus hint).Integrity := by
  apply integrity.sameStructure sameStructure_unfocus
  intro v member
  unfold Model.unfocus at member
  split at member <;> exact integrity.mru v member

end Model

open Model

section Trees

variable {s t : Model} {w : Window} {fuel : Nat}

theorem mem_flatten_forall₂ {α β : Type} {mem : α → β → Prop} {xs : List α} {parts : List (List β)}
    {b : β} (h : List.Forall₂ (fun a bs => ∀ b, b ∈ bs ↔ mem a b) xs parts) :
    b ∈ parts.flatten ↔ ∃ a ∈ xs, mem a b := by
  induction h with
  | nil => simp
  | cons here _ ih => simp [here, ih]

/-- `descendants` lists what is strictly below a window. -/
theorem ensures_descendants (linked : s.Linked) (managed : s.Managed w) :
    (descendants fuel w).Ensures s
      (fun below t => t = s ∧ ∀ v, v ∈ below ↔ ∃ n, climb s.parentOf (n + 1) v = some w)
      (fun _ _ => False)
      (∀ d n a, s.DepthBelow d → climb s.parentOf n w = some a → fuel + n < d) := by
  induction fuel generalizing w with
  | zero =>
    intro d n a bound reached
    simpa using bound.lt reached
  | succ fuel ih =>
    rw [descendants, ensures_bind, ensures_infoFor]
    refine ⟨fun info here => ?_, fun gone => by simp [Managed, gone] at managed⟩
    refine Ensures.mono (ensures_collect _ info.children
      (fun child part => ∀ v, v ∈ part ↔ ∃ n, climb s.parentOf n v = some child)
      fun child member => by
        have link := (linked.mem_children here).mp member
        rw [ensures_bind]
        refine (ih (linked.managed_child here member)).mono ?_ (fun _ _ h => h) ?_
        · intro below t after
          rcases after with ⟨rfl, spec⟩
          refine ⟨rfl, fun v => ?_⟩
          rw [List.mem_cons, spec]
          exact above_iff_strict.symm
        · intro short d n a bound reached
          have := short d (n + 1) a bound ((climb_link link n).trans reached)
          omega) ?_ (fun _ _ h => h) id
    intro below t after
    rcases after with ⟨rfl, parts, results, rfl⟩
    refine ⟨rfl, fun v => ?_⟩
    rw [mem_flatten_forall₂ results]
    constructor
    · rintro ⟨child, member, n, reached⟩
      refine ⟨n, ?_⟩
      rw [climb_add, reached]
      simp [climb, (linked.mem_children here).mp member]
    · rintro ⟨n, reached⟩
      rw [climb_add] at reached
      cases up : climb t.parentOf n v with
      | none => simp [up] at reached
      | some child =>
        refine ⟨child, (linked.mem_children here).mpr ?_, n, up⟩
        simpa [up, climb] using reached

/-- Raising a tree only reports; it needs fuel for the way up and for each way down. -/
theorem ensures_raiseTree (integrity : s.Integrity) (managed : s.Managed w) :
    (raiseTree fuel w).Ensures s
      (fun _ t => ∃ raised, (∀ event ∈ raised, event.quiet) ∧ t = s.emits raised)
      (fun _ _ => False)
      (∀ d k, s.DepthBelow d → climb s.parentOf k w = none → fuel < k + d) := by
  induction fuel generalizing w with
  | zero =>
    intro d k bound _
    have := bound.pos
    omega
  | succ fuel ih =>
    rw [raiseTree, ensures_bind, ensures_infoFor]
    refine ⟨fun info here => ?_, fun gone => by simp [Managed, gone] at managed⟩
    simp only [ensures_bind, ensures_state]
    rw [integrity.lock_parent here]
    have below (raised : List Event) (quiet : ∀ event ∈ raised, event.quiet) :
        (descendants fuel w).Ensures (s.emits raised) (fun below t =>
          ∃ raised, (∀ event ∈ raised, event.quiet) ∧
            (t.emit (.adviseRaise (w :: below))).emit (.raise (w :: below)) = s.emits raised)
          (fun _ _ => False)
          (∀ d k, s.DepthBelow d → climb s.parentOf k w = none → fuel + 1 < k + d) := by
      refine (ensures_descendants integrity.emits.toLinked managed).mono ?_ (fun _ _ h => h) ?_
      · intro below t after
        rcases after with ⟨rfl, -⟩
        refine ⟨raised ++ [.adviseRaise (w :: below), .raise (w :: below)], ?_, ?_⟩
        · intro event member
          rcases List.mem_append.mp member with old | new
          · exact quiet event old
          · rcases List.mem_pair.mp new with rfl | rfl <;> rfl
        · simp [Model.emits, Model.emit]
      · intro short d k bound ended
        have deep := short d 0 w bound rfl
        cases k with
        | zero => simp at ended
        | succ k => omega
    rw [ensures_whenSome]
    constructor
    · intro p link
      have managedParent := integrity.managed_parent ((parentOf_eq here).trans link)
      refine (ih managedParent).mono ?_ (fun _ _ h => h) ?_
      · intro _ t after
        rcases after with ⟨raised, quiet, rfl⟩
        simpa using below raised quiet
      · intro short d k bound ended
        cases k with
        | zero => simp at ended
        | succ k =>
          have := short d k bound (climb_parent_none ended ((parentOf_eq here).trans link))
          omega
    · intro _
      have := below [] (by simp)
      simpa [Model.emits] using this

theorem ensures_raiseTree_any (integrity : s.Integrity) (w : Window) :
    (raiseTree fuel w).Ensures s
      (fun _ t => ∃ raised, (∀ event ∈ raised, event.quiet) ∧ t = s.emits raised)
      (fun _ t => t = s) True := by
  by_cases managed : s.Managed w
  · exact (ensures_raiseTree integrity managed).mono (fun _ _ h => h) (fun _ _ h => h.elim)
      fun _ => trivial
  · cases fuel with
    | zero => trivial
    | succ fuel =>
      rw [raiseTree, ensures_bind, ensures_infoFor]
      refine ⟨fun info here => ?_, fun _ => rfl⟩
      exact absurd (managed_iff.mpr ⟨info, here⟩) managed

end Trees

section Select

variable {s t : Model} {w : Window} {fuel : Nat}

theorem ensures_visibleDialog {short : Prop} (children : List Window)
    (managed : ∀ c ∈ children, s.Managed c) :
    (visibleDialog children).Ensures s (fun r t => t = s ∧ r = s.firstDialog children)
      (fun _ _ => False) short := by
  induction children with
  | nil => exact ⟨rfl, rfl⟩
  | cons child rest ih =>
    obtain ⟨info, here⟩ := managed_iff.mp (managed child (by simp))
    rw [visibleDialog, ensures_bind, ensures_infoFor_here here]
    rw [ensures_bind, ensures_state, ensures_ite]
    constructor
    · intro dialog
      exact ⟨rfl, by simp [firstDialog, here, dialog]⟩
    · intro other
      refine (ih fun c member => managed c (by simp [member])).imp ?_
      intro r t after
      rcases after with ⟨same, rfl⟩
      refine ⟨same, ?_⟩
      rw [firstDialog, firstDialog, List.find?_cons_of_neg]
      simpa [here] using other

/-- The fuel one search needs: links up to a root, and from there down to a dialog. -/
private def SearchShort (s : Model) (fuel : Nat) (w : Window) : Prop :=
  (∀ d k, s.DepthBelow d → climb s.parentOf k w = none → fuel < k + 3 * d) ∧
  ((∃ info, s.info? w = some info ∧ info.type = .dialog ∧ s.isVisible w info) →
    ∀ d n a, s.DepthBelow d → climb s.parentOf n w = some a → fuel + n < 3 * d)

private theorem SearchShort.zero : SearchShort s 0 w := by
  constructor
  · intro d k bound _
    have := bound.pos
    omega
  · intro _ d n a bound reached
    have := bound.lt reached
    omega

private theorem SearchShort.down {c : Window} (link : s.parentOf c = some w)
    (dialog : ∃ info, s.info? c = some info ∧ info.type = .dialog ∧ s.isVisible c info)
    (short : SearchShort s fuel c) : SearchShort s (fuel + 1) w := by
  constructor
  · intro d k bound _
    have := short.2 dialog d 1 w bound ((climb_link link 0).trans rfl)
    omega
  · intro _ d n a bound reached
    have := short.2 dialog d (n + 1) a bound ((climb_link link n).trans reached)
    omega

private theorem SearchShort.here
    (short : ∀ d k, s.DepthBelow d → climb s.parentOf k w = none → fuel < k + d) :
    SearchShort s (fuel + 1) w := by
  constructor
  · intro d k bound ended
    have := short d k bound ended
    have := bound.pos
    omega
  · intro _ d n a bound reached
    have := short d d bound (bound w)
    have := bound.lt reached
    omega

private theorem SearchShort.up {p : Window} {info : WindowInfo} (here : s.info? w = some info)
    (refused : ¬(info.type.canBeActive ∧ s.isVisible w info)) (link : s.parentOf w = some p)
    (short : SearchShort s fuel p) : SearchShort s (fuel + 1) w := by
  constructor
  · intro d k bound ended
    cases k with
    | zero => simp at ended
    | succ k =>
      have := short.1 d k bound (climb_parent_none ended link)
      omega
  · rintro ⟨info', here', dialog, seen⟩
    obtain rfl := Option.some.inj (here.symm.trans here')
    exact absurd ⟨by simp [dialog, WindowType.canBeActive], seen⟩ refused

/-- The branch of `select_active_window` that gives `w` the focus; `told` is what is known of the
reports of raising its tree. -/
theorem ensures_focus (told : List Event → Prop) {short : Prop} (integrity : s.Integrity)
    (managed : s.Managed w)
    (raising : ∀ t : Model, t.Integrity → t.windowInfo = s.windowInfo →
      (raiseTree fuel w).Ensures t (fun _ u => ∃ raised, told raised ∧ u = t.emits raised)
        (fun _ _ => False) short) :
    Ensures (do
      update (·.pushMru w)
      setFocusTo (some w.application) (some w)
      whenSome s.activeWindow fun prev => onlyIf (prev ≠ w) (adviseFocusLost prev)
      adviseFocusGained fuel w
      pure (some w)) s
      (fun r t => r = some w ∧ ∃ raised, told raised ∧ t = s.focusOn w raised)
      (fun _ _ => False) short := by
  have gained (lost : List Event) (eq : s.lostTo w = lost) :
      Ensures (adviseFocusGained fuel w >>= fun _ => pure (some w))
        { s with
          mruActiveWindows := s.mruActiveWindows.filter (· ≠ w) ++ [w]
          focus := ⟨some w.application, some w⟩
          log := s.log ++ [.setFocusTo (some w.application) (some w)] ++ lost }
        (fun r t => r = some w ∧ ∃ raised, told raised ∧ t = s.focusOn w raised)
        (fun _ _ => False) short := by
    rw [adviseFocusGained, ensures_bind, ensures_bind, ensures_emit]
    have focused : (s.focusOn w []).Integrity := integrity.focusOn managed
    refine Ensures.imp (raising _ ?_ rfl) ?_
    · exact focused.sameStructure (.of_frame rfl) focused.mru
    rintro _ t ⟨raised, known, rfl⟩
    refine ⟨rfl, raised, known, ?_⟩
    simp [Model.emits, Model.emit, focusOn, eq]
  simp only [ensures_bind, ensures_update, setFocusTo, ensures_whenSome, ensures_onlyIf]
  constructor
  · intro prev active
    constructor
    · intro other
      obtain ⟨info, here⟩ := managed_iff.mp (integrity.managed_active active)
      rw [adviseFocusLost, ensures_bind]
      refine (ensures_infoFor_here (?_ : _ = some info)).mpr ?_
      · exact here
      simpa [pushMru, Model.emit] using
        gained [.adviseFocusLost prev] (by simp [lostTo, active, other])
    · intro same
      simpa [pushMru, Model.emit] using gained [] (by simp [lostTo, active, same])
  · intro inactive
    simpa [pushMru, Model.emit] using gained [] (by simp [lostTo, inactive])

private theorem ensures_search (integrity : s.Integrity) (live : s.Live w) :
    (selectActiveWindow fuel (some w)).Ensures s (fun r t => s.Picks w r ∧ s.Selected r t)
      (fun _ _ => False) (SearchShort s fuel w) := by
  induction fuel generalizing w with
  | zero => exact SearchShort.zero
  | succ fuel ih =>
    obtain ⟨info, here⟩ := integrity.info_of_live live
    rw [selectActiveWindow, ensures_bind, ensures_state, lock_some live, ensures_bind,
      ensures_infoFor_here here]
    refine (ensures_visibleDialog info.children fun c member =>
      integrity.managed_child here member).bind ?_
    intro dialog t after
    rcases after with ⟨rfl, eq⟩
    cases dialog with
    | some child =>
      obtain ⟨member, shown⟩ := firstDialog_spec eq.symm
      have link := (integrity.mem_children here).mp member
      have childLive := (integrity.live child).mpr (integrity.managed_child here member)
      refine (ih childLive).mono ?_ (fun _ _ h => h) (SearchShort.down link shown)
      intro r u after
      rcases after with ⟨picks, selected⟩
      exact ⟨.dialog here eq.symm picks, selected⟩
    | none =>
      rw [ensures_ite]
      constructor
      · rintro ⟨active, seen⟩
        have managed : t.Managed w := managed_iff.mpr ⟨info, here⟩
        refine (ensures_focus (∀ event ∈ ·, event.quiet) integrity managed
          fun u integrity' same => ?_).imp ?_
        · have parents : u.parentOf = t.parentOf := by
            funext v
            rw [parentOf, info?, same, ← info?, ← parentOf]
          have managed' : u.Managed w := by rwa [Managed, info?, same]
          refine (ensures_raiseTree integrity' managed').mono (fun _ _ h => h) (fun _ _ h => h) ?_
          intro short
          refine .here fun d k bound ended => ?_
          rw [← parents] at ended
          exact short d k (fun v => parents ▸ bound v) ended
        · rintro r u ⟨rfl, selected⟩
          exact ⟨.itself here eq.symm active seen, selected⟩
      · intro refused
        cases locked : t.lock info.parent with
        | none => exact ⟨.nothing here eq.symm refused locked, rfl⟩
        | some p =>
          obtain ⟨link, parentLive⟩ := lock_eq_some.mp locked
          refine (ih parentLive).mono ?_ (fun _ _ h => h)
            (SearchShort.up here refused ((parentOf_eq here).trans link))
          intro r u after
          rcases after with ⟨picks, selected⟩
          exact ⟨.parent here eq.symm refused locked picks, selected⟩

theorem ensures_selectActiveWindow (integrity : s.Integrity) (live : s.Live w) :
    (selectActiveWindow fuel (some w)).Ensures s (fun r t => s.Picks w r ∧ s.Selected r t)
      (fun _ _ => False) (s.Short fuel) := by
  apply (ensures_search integrity live).mono (fun _ _ h => h) (fun _ _ h => h)
  intro short d bound
  have := short.1 d d bound (bound w)
  omega

theorem ensures_selectNull (integrity : s.Integrity) {hint : Option Window}
    (dead : s.lock hint = none) :
    (selectActiveWindow fuel hint).Ensures s (fun r t => r = hint ∧ t = s.unfocus hint)
      (fun _ _ => False) (s.Short fuel) := by
  cases fuel with
  | zero =>
    intro d bound
    have := bound.pos
    omega
  | succ fuel =>
    rw [selectActiveWindow, ensures_bind, ensures_state, dead]
    simp only [ensures_bind, ensures_whenSome]
    constructor
    · intro prev active
      obtain ⟨info, here⟩ := managed_iff.mp (integrity.managed_active active)
      simp only [setFocusTo, ensures_bind, ensures_update, adviseFocusLost, ensures_emit,
        ensures_pure]
      refine (ensures_infoFor_here (?_ : _ = some info)).mpr ⟨trivial, ?_⟩
      · exact here
      · simp [unfocus, active, Model.emit]
    · intro inactive
      exact ⟨rfl, by simp [unfocus, inactive]⟩

end Select

end Miral
