import Miral.SwitchGeometry

/-! From one workspace to another and back again, with nothing else in between: what has become
of the windows, and of the focus. -/
namespace Miral

open Program Prog Forest Model

namespace Shell

variable {s t u : Shell} {w v : Window} {k : Workspace} {info : WindowInfo}

/-- What is the same after a switch to workspace `k` with no window taken along. -/
structure Crossed (k : Workspace) (s u : Shell) : Prop where
  settled : u.Settled
  assigned : u.Assigned
  steady : Steady { s with activeWorkspace := k, workspaceToActive := u.workspaceToActive } u
  presentable : ∀ v, ¬s.IsDecoration v → u.presentable v = s.presentable v
  shownAt : ∀ v, s.manager.Managed v → ¬s.IsDecoration v → ∀ rect,
    u.shownAt v rect = s.shownAt v rect
  remembered : ∀ a, s.manager.activeWindow = some a →
    (s.activeWorkspace, a) ∈ s.manager.workspacesToWindows → ¬s.IsDecoration a →
    u.workspaceToActive s.activeWorkspace = some a

theorem remembered_rememberIf {left : Workspace} {last : Option Window} {k' : Workspace}
    (remembered : (s.rememberIf left last).workspaceToActive k' = some w) :
    last = some w ∨ s.workspaceToActive k' = some w := by
  cases last with
  | none => exact .inr remembered
  | some a =>
    change (if k' = left then some a else s.workspaceToActive k') = some w at remembered
    split at remembered
    · exact .inl remembered
    · exact .inr remembered

theorem Switched.crossed (switched : s.Switched k none u) (settled : s.Settled)
    (assigned : s.Assigned) (key : s.HasKey k) (leaves : k ≠ s.activeWorkspace) :
    s.Crossed k u := by
  have relocated := switched.relocated settled.toSound assigned.concealed leaves
  have assigned' : u.Assigned := relocated.assigned assigned key leaves fun v taken => by
    obtain ⟨w, locked, -⟩ := taken
    simp [Model.lock] at locked
  have sound' := relocated.sound
  obtain @⟨shown, hidden, s₂, s₃, shows, -, -, gone, hides⟩ := switched.exchanged settled leaves
  have start : ({ s with activeWorkspace := k } : Shell).Sound := ⟨settled.titled, settled.furnished⟩
  have onward₂ := Onward.of_steps shows start assigned.concealed
  have onward := onward₂.trans (.of_steps hides onward₂.sound onward₂.concealed)
  have steady := onward.steady
  have plain₂ (v : Window) (plain : ¬s.IsDecoration v) : ¬s₂.IsDecoration v :=
    mt onward₂.steady.isDecoration.mp plain
  have places (v : Window) (managed : s.manager.Managed v) (plain : ¬s.IsDecoration v)
      (rect : Rectangle) : s₃.shownAt v rect = s.shownAt v rect :=
    (shownAt_steps hides onward₂.sound (onward₂.steady.managed.mpr managed) (plain₂ v plain)
      rect).trans (shownAt_steps shows start managed plain rect)
  have remembers (k' : Workspace) (w : Window) (is : (s₃.rememberIf s.activeWorkspace
      (s.manager.activeWindow.filter (· ∈ hidden))).workspaceToActive k' = some w) :
      ¬s.IsDecoration w := by
    rcases remembered_rememberIf is with last | before
    · obtain ⟨-, listed⟩ := Option.filter_eq_some_iff.mp last
      exact ((gone w).mp (of_decide_eq_true listed)).2
    · rw [steady.workspaceToActive] at before
      exact settled.remembered k' w before
  have last (a : Window) (active : s.manager.activeWindow = some a)
      (here : (s.activeWorkspace, a) ∈ s.manager.workspacesToWindows) (plain : ¬s.IsDecoration a) :
      (s₃.rememberIf s.activeWorkspace
        (s.manager.activeWindow.filter (· ∈ hidden))).workspaceToActive s.activeWorkspace =
          some a := by
    have listed : s.manager.activeWindow.filter (· ∈ hidden) = some a := by
      simp [active, Option.filter, (gone a).mpr ⟨here, plain⟩]
    rw [listed]
    exact if_pos rfl
  rw [rememberIf_eq] at sound' assigned' remembers last ⊢
  exact
    { settled := { toSound := sound'
                   living := fun k' => by
                     change k' ∈ s₃.manager.liveWorkspaces ↔ s₃.HasKey k'
                     rw [steady.living, HasKey, steady.keyToWorkspace]
                     exact settled.living k'
                   remembered := fun k' w is decoration => remembers k' w is
                     (steady.isDecoration.mp decoration) }
      assigned := assigned'
      steady := ⟨steady.decorations, steady.titlebar, steady.keyToWorkspace,
        steady.activeWorkspace, rfl, steady.pairs, steady.living, steady.parents, steady.children,
        steady.types, steady.displays, steady.displayLayout⟩
      presentable := onward.presentable
      shownAt := places
      remembered := last }

/-- Where windows are after a switch. -/
theorem Exchanged.rects (calm : Window → Prop) (exchanged : s.Exchanged k u) (sound : s.Sound)
    (assigned : s.Assigned) (key : s.HasKey k) (leaves : k ≠ s.activeWorkspace)
    (managed : s.manager.Managed v) (plain : ¬s.IsDecoration v)
    (up : ∀ x y, calm y → Above s.manager.parentOf x y → calm x)
    (inPlace : ∀ w, (k, w) ∈ s.manager.workspacesToWindows → ¬s.IsDecoration w → calm w →
      s.InPlace w)
    (below : ∀ x, Above s.manager.parentOf x v → x = v ∨ calm x) :
    u.manager.rect v = if (k, v) ∈ s.manager.workspacesToWindows
      then s.shownAt v (s.manager.rect v) else s.manager.rect v := by
  obtain @⟨shown, hidden, s₂, s₃, shows, listed, -, gone, hides⟩ := exchanged
  have start : ({ s with activeWorkspace := k } : Shell).Sound := ⟨sound.titled, sound.furnished⟩
  have onward₂ := Onward.of_steps shows start assigned.concealed
  have integrity := sound.furnished.coherent.integrity
  have same : s₃.manager.rect v = s₂.manager.rect v :=
    hidden_rects hides onward₂.sound onward₂.concealed
      (fun w member decoration => ((gone w).mp (mem_deferred.mp member)).2
        (onward₂.steady.isDecoration.mp decoration)) (mt onward₂.steady.isDecoration.mp plain)
  rw [rememberIf_eq]
  change s₃.manager.rect v = _
  have flag : (k, v) ∈ s.manager.workspacesToWindows → (s.policyData v).inHiddenWorkspace :=
    fun inK => (assigned.flagged v managed plain).mpr fun inA =>
      leaves (assigned.unique managed plain key assigned.active inK inA)
  rw [same, shown_rects calm shows start assigned.concealed
    (fun w member => ⟨integrity.workspaces _ ((listed w).mp member).1, ((listed w).mp member).2⟩)
    plain managed up (fun w member => inPlace w ((listed w).mp member).1 ((listed w).mp member).2)
    below]
  refine if_congr ?_ rfl rfl
  rw [listed]
  exact ⟨fun h => h.1.1, fun inK => ⟨⟨inK, plain⟩, flag inK⟩⟩

/-- The records of the windows after a switch to a workspace where all is in its place. -/
theorem Exchanged.records (exchanged : s.Exchanged k u) (sound : s.Sound) (assigned : s.Assigned)
    (key : s.HasKey k) (leaves : k ≠ s.activeWorkspace) (plain : ¬s.IsDecoration v)
    (inPlace : ∀ w, (k, w) ∈ s.manager.workspacesToWindows → ¬s.IsDecoration w → s.InPlace w)
    (here : s.manager.info? v = some info) :
    ((k, v) ∈ s.manager.workspacesToWindows →
      u.manager.info? v = some (s.visitedInfo v info false) ∧
        u.policyData v = s.dataUnder v info false) ∧
    ((s.activeWorkspace, v) ∈ s.manager.workspacesToWindows →
      u.manager.info? v = some (s.visitedInfo v info true) ∧
        u.policyData v = s.dataUnder v info true) ∧
    ((k, v) ∉ s.manager.workspacesToWindows →
      (s.activeWorkspace, v) ∉ s.manager.workspacesToWindows → u.manager.info? v = some info) := by
  obtain @⟨shown, hidden, s₂, s₃, shows, listed, -, gone, hides⟩ := exchanged
  have start : ({ s with activeWorkspace := k } : Shell).Sound := ⟨sound.titled, sound.furnished⟩
  have onward₂ := Onward.of_steps shows start assigned.concealed
  have integrity := sound.furnished.coherent.integrity
  have managed : s.manager.Managed v := managed_iff.mpr ⟨info, here⟩
  have plain₂ : ¬s₂.IsDecoration v := mt onward₂.steady.isDecoration.mp plain
  have known (w : Window) (member : w ∈ shown) : s.manager.Managed w ∧ ¬s.IsDecoration w :=
    ⟨integrity.workspaces _ ((listed w).mp member).1, ((listed w).mp member).2⟩
  have known₂ (w : Window) (member : w ∈ hidden) : s₂.manager.Managed w ∧ ¬s₂.IsDecoration w :=
    ⟨onward₂.steady.managed.mpr (integrity.workspaces _ ((gone w).mp member).1),
      mt onward₂.steady.isDecoration.mp ((gone w).mp member).2⟩
  have calm : false = true ∨ ∀ w ∈ shown, ({ s with activeWorkspace := k } : Shell).InPlace w :=
    .inr fun w member => inPlace w ((listed w).mp member).1 ((listed w).mp member).2
  have apart (inK : (k, v) ∈ s.manager.workspacesToWindows)
      (inA : (s.activeWorkspace, v) ∈ s.manager.workspacesToWindows) : False :=
    leaves (assigned.unique managed plain key assigned.active inK inA)
  have flagged := assigned.flagged v managed plain
  have rect : s₂.manager.rect v = s.manager.rect v := by
    have still := still_rects (v := v) shows start assigned.concealed known calm managed plain
    exact still
  rw [rememberIf_eq]
  change (_ → s₃.manager.info? v = _ ∧ s₃.policyData v = _) ∧ (_ → s₃.manager.info? v = _ ∧
    s₃.policyData v = _) ∧ (_ → _ → s₃.manager.info? v = _)
  have passed (out : (k, v) ∉ s.manager.workspacesToWindows) :
      s₂.manager.info? v = s.manager.info? v ∧ s₂.policyData v = s.policyData v := by
    have same := passed_steps shows plain fun member => absurd ((listed v).mp member).1 out
    exact same
  refine ⟨fun inK => ?_, fun inA => ?_, fun outK outA => ?_⟩
  · have first : s₂.manager.info? v = some (s.visitedInfo v info false) ∧
        s₂.policyData v = s.dataUnder v info false := by
      have shown := visited_steps shows start assigned.concealed known calm
        ((listed v).mpr ⟨inK, plain⟩) (flagged.mpr (apart inK)) here
      exact shown
    have later := passed_steps hides plain₂ fun member =>
      (apart inK ((gone v).mp (mem_deferred.mp member)).1).elim
    rw [later.1, later.2]
    exact first
  · have first := passed fun inK => apart inK inA
    have unflagged : (s₂.policyData v).inHiddenWorkspace = false := by
      rw [first.2]
      exact Bool.eq_false_iff.mpr fun flag => flagged.mp flag inA
    have second := visited_steps hides onward₂.sound onward₂.concealed
      (fun w member => known₂ w (mem_deferred.mp member)) (.inl rfl)
      (mem_deferred.mpr ((gone v).mpr ⟨inA, plain⟩)) unflagged (first.1.trans here)
    rw [visitedInfo_congr rect first.2] at second
    exact second
  · have first := passed outK
    have later := passed_steps hides plain₂ fun member =>
      absurd ((gone v).mp (mem_deferred.mp member)).1 outA
    rw [later.1, first.1, here]

theorem visitedInfo_shown (t : Shell) (data : (t.policyData w).oldState = info.state) :
    (t.visitedInfo w (s.visitedInfo w info true) false).state = info.state ∧
      (t.visitedInfo w (s.visitedInfo w info true) false).restoreRect =
        if info.state = .hidden then info.restoreRect else t.manager.rect w := by
  have own : t.stateUnder w false = info.state := data
  have conceals : s.stateUnder w true = .hidden := rfl
  simp only [visitedInfo, own, conceals, cachedInfo, true_and]
  by_cases hidden : info.state = .hidden
  · simp [hidden]
  · simp [hidden, Ne.symm hidden, WindowInfo.currentRestoreRect]

theorem visitedInfo_hidden (t : Shell) (hidden : info.state = .hidden)
    (still : t.manager.rect w = s.manager.rect w) :
    (t.visitedInfo w (s.visitedInfo w info false) true).state = info.state ∧
      (t.visitedInfo w (s.visitedInfo w info false) true).restoreRect =
        if (s.policyData w).oldState = .hidden then info.restoreRect else s.manager.rect w := by
  have own : s.stateUnder w false = (s.policyData w).oldState := rfl
  have conceals : t.stateUnder w true = .hidden := rfl
  simp only [visitedInfo, own, conceals, cachedInfo, hidden, still, true_and]
  generalize (s.policyData w).oldState = value
  by_cases stays : value = .hidden
  · simp [stays]
  · cases value <;> simp_all [WindowInfo.currentRestoreRect]

/-- The window comes back as it was: it is hidden anyway, or it stays where it is, and that is
what it would be restored to. -/
def ComesBack (s : Shell) (w : Window) : Prop := ∀ info, s.manager.info? w = some info →
  s.ownState w info = .hidden ∨ info.restoreRect = s.manager.rect w ∧ s.InPlace w

theorem ComesBack.inPlace (back : s.ComesBack w) : s.InPlace w := by
  unfold InPlace shownAt
  split
  · rename_i info here
    rcases back info here with hidden | ⟨-, inPlace⟩
    · rw [hidden]
      rfl
    · rwa [InPlace, shownAt_eq here] at inPlace
  · rfl

/-- To workspace `k`, and back from there. -/
structure ThereAndBack (k : Workspace) (s t u : Shell) : Prop where
  leaves : k ≠ s.activeWorkspace
  key : s.HasKey k
  settled : s.Settled
  assigned : s.Assigned
  first : s.Exchanged k t
  crossed : s.Crossed k t
  second : t.Exchanged s.activeWorkspace u
  back : t.Crossed s.activeWorkspace u

/-- The window is in one of the two workspaces. -/
def InEither (s : Shell) (k : Workspace) (w : Window) : Prop :=
  (k, w) ∈ s.manager.workspacesToWindows ∨ (s.activeWorkspace, w) ∈ s.manager.workspacesToWindows

instance : Decidable (s.InEither k w) := inferInstanceAs (Decidable (_ ∨ _))

namespace ThereAndBack

variable (round : ThereAndBack k s t u)

include round

theorem active : t.activeWorkspace = k := round.crossed.steady.activeWorkspace

theorem returns : s.activeWorkspace ≠ t.activeWorkspace := by
  rw [round.active]
  exact round.leaves.symm

theorem home : t.HasKey s.activeWorkspace := by
  rw [HasKey, round.crossed.steady.keyToWorkspace]
  exact round.assigned.active

theorem pairs : t.manager.workspacesToWindows = s.manager.workspacesToWindows :=
  round.crossed.steady.pairs

theorem plain_t (plain : ¬s.IsDecoration v) : ¬t.IsDecoration v :=
  mt round.crossed.steady.isDecoration.mp plain

theorem managed_t (managed : s.manager.Managed v) : t.manager.Managed v :=
  round.crossed.steady.managed.mpr managed

theorem parentOf : t.manager.parentOf = s.manager.parentOf := round.crossed.steady.parentOf

theorem apart (managed : s.manager.Managed v) (plain : ¬s.IsDecoration v)
    (inK : (k, v) ∈ s.manager.workspacesToWindows)
    (inA : (s.activeWorkspace, v) ∈ s.manager.workspacesToWindows) : False :=
  round.leaves (round.assigned.unique managed plain round.key round.assigned.active inK inA)

/-- Where a window is at the end, whose ancestors are in their places. -/
theorem rects (calm : Window → Prop) (managed : s.manager.Managed v) (plain : ¬s.IsDecoration v)
    (up : ∀ x y, calm y → Above s.manager.parentOf x y → calm x)
    (inPlace : ∀ w, s.InEither k w → ¬s.IsDecoration w → calm w → s.InPlace w)
    (below : ∀ x, Above s.manager.parentOf x v → x = v ∨ calm x) :
    (t.manager.rect v = if (k, v) ∈ s.manager.workspacesToWindows
      then s.shownAt v (s.manager.rect v) else s.manager.rect v) ∧
    u.manager.rect v = if s.InEither k v then s.shownAt v (s.manager.rect v)
      else s.manager.rect v := by
  have integrity := round.settled.furnished.coherent.integrity
  have early (w : Window) (managed : s.manager.Managed w) (plain : ¬s.IsDecoration w)
      (below : ∀ x, Above s.manager.parentOf x w → x = w ∨ calm x) :
      t.manager.rect w = if (k, w) ∈ s.manager.workspacesToWindows
        then s.shownAt w (s.manager.rect w) else s.manager.rect w :=
    round.first.rects calm round.settled.toSound round.assigned round.key round.leaves managed plain up
      (fun w inK plain is => inPlace w (.inl inK) plain is) below
  have calm_t (w : Window) (inA : (s.activeWorkspace, w) ∈ s.manager.workspacesToWindows)
      (plain : ¬s.IsDecoration w) (is : calm w) : t.InPlace w := by
    have managed : s.manager.Managed w := integrity.workspaces _ inA
    have still := early w managed plain fun x above => .inr (up x w is above)
    rw [if_neg fun inK => round.apart managed plain inK inA] at still
    rw [InPlace, still, round.crossed.shownAt w managed plain]
    exact inPlace w (.inr inA) plain is
  have late := round.second.rects calm round.crossed.settled.toSound round.crossed.assigned round.home
    round.returns (round.managed_t managed) (round.plain_t plain)
    (by rw [round.parentOf]; exact up)
    (fun w inA plain is => calm_t w (round.pairs ▸ inA)
      (mt round.crossed.steady.isDecoration.mpr plain) is)
    (by rw [round.parentOf]; exact below)
  refine ⟨early v managed plain below, ?_⟩
  rw [late, round.pairs, round.crossed.shownAt v managed plain, early v managed plain below]
  by_cases inK : (k, v) ∈ s.manager.workspacesToWindows
  · have out : (s.activeWorkspace, v) ∉ s.manager.workspacesToWindows := round.apart managed plain inK
    simp [InEither, inK, out]
  · simp [InEither, inK]

theorem still (inPlace : ∀ w, s.InEither k w → ¬s.IsDecoration w → s.InPlace w)
    (managed : s.manager.Managed v) (plain : ¬s.IsDecoration v) :
    t.manager.rect v = s.manager.rect v ∧ u.manager.rect v = s.manager.rect v := by
  obtain ⟨early, late⟩ := round.rects (fun _ => True) managed plain
    (fun _ _ _ _ => trivial) (fun w either plain _ => inPlace w either plain) fun _ _ => .inr trivial
  constructor
  · rw [early]
    split
    · rename_i inK
      exact inPlace v (.inl inK) plain
    · rfl
  · rw [late]
    split
    · rename_i either
      exact inPlace v either plain
    · rfl

theorem inPlace (acyclic : s.manager.Acyclic) (same : ∀ v, s.manager.Managed v →
    ¬s.IsDecoration v → u.manager.rect v = s.manager.rect v) (either : s.InEither k w)
    (plain : ¬s.IsDecoration w) : s.InPlace w := by
  have integrity := round.settled.furnished.coherent.integrity
  have known (v : Window) (either : s.InEither k v) : s.manager.Managed v := by
    rcases either with inK | inA
    · exact integrity.workspaces _ inK
    · exact integrity.workspaces _ inA
  by_contra moved
  obtain ⟨a, -, ⟨inEither, plain, moves⟩, topmost⟩ := exists_topmost
    (fun v => s.InEither k v ∧ ¬s.IsDecoration v ∧ ¬s.InPlace v) (acyclic w (known w either))
    ⟨w, .refl, either, plain, moved⟩
  have managed := known a inEither
  have rooted := acyclic a managed
  have placed := (round.rects (fun x => x ≠ a ∧ Above s.manager.parentOf x a) managed plain
    (fun x y is above => ⟨fun eq => is.1 (is.2.antisymm rooted (eq ▸ above)), above.trans is.2⟩)
    (fun v either plain is => by
      by_contra out
      exact is.1 (topmost v ⟨either, plain, out⟩ is.2))
    fun x above => or_iff_not_imp_left.mpr fun ne => ⟨ne, above⟩).2
  rw [same a managed plain, if_pos inEither] at placed
  exact moves placed.symm

/-- What the record of a window says at the end. -/
theorem record (inPlace : ∀ w, s.InEither k w → ¬s.IsDecoration w → s.InPlace w)
    (plain : ¬s.IsDecoration v) (here : s.manager.info? v = some info) :
    ∃ info', u.manager.info? v = some info' ∧ info'.state = info.state ∧ info'.restoreRect =
      if s.InEither k v ∧ s.ownState v info ≠ .hidden then s.manager.rect v
      else info.restoreRect := by
  have managed : s.manager.Managed v := managed_iff.mpr ⟨info, here⟩
  have integrity := round.settled.furnished.coherent.integrity
  have plain' := round.plain_t plain
  have inPlace_t (w : Window) (inA : (s.activeWorkspace, w) ∈ t.manager.workspacesToWindows)
      (plain : ¬t.IsDecoration w) : t.InPlace w := by
    rw [round.crossed.steady.isDecoration] at plain
    rw [round.pairs] at inA
    have known : s.manager.Managed w := integrity.workspaces _ inA
    rw [InPlace, (round.still inPlace known plain).1, round.crossed.shownAt w known plain]
    exact inPlace w (.inr inA) plain
  have flagged := round.assigned.flagged v managed plain
  obtain ⟨inK₁, inA₁, neither₁⟩ := round.first.records round.settled.toSound round.assigned round.key
    round.leaves plain (fun w inK => inPlace w (.inl inK)) here
  have late {info₁ : WindowInfo} (now : t.manager.info? v = some info₁) :=
    round.second.records round.crossed.settled.toSound round.crossed.assigned round.home round.returns
      plain' inPlace_t now
  rw [round.pairs, round.active] at late
  have rect : t.manager.rect v = s.manager.rect v := (round.still inPlace managed plain).1
  by_cases inK : (k, v) ∈ s.manager.workspacesToWindows
  · have flag : (s.policyData v).inHiddenWorkspace :=
      flagged.mpr fun inA => round.apart managed plain inK inA
    have hidden := round.assigned.concealed v info here plain flag
    have own : s.ownState v info = (s.policyData v).oldState := if_pos flag
    obtain ⟨state, restoreRect⟩ := visitedInfo_hidden t hidden rect
    refine ⟨_, ((late (inK₁ inK).1).2.1 inK).1, state, ?_⟩
    rw [restoreRect, own]
    by_cases stays : (s.policyData v).oldState = .hidden <;> simp [InEither, inK, stays]
  · by_cases inA : (s.activeWorkspace, v) ∈ s.manager.workspacesToWindows
    · have own : s.ownState v info = info.state := if_neg fun flag => flagged.mp flag inA
      have data : (t.policyData v).oldState = info.state := by
        rw [(inA₁ inA).2]
        rfl
      obtain ⟨state, restoreRect⟩ := visitedInfo_shown t data
      refine ⟨_, ((late (inA₁ inA).1).1 inA).1, state, ?_⟩
      rw [restoreRect, own, rect]
      by_cases stays : info.state = .hidden <;> simp [InEither, inA, stays]
    · refine ⟨info, (late (neither₁ inK inA)).2.2 inA inK, rfl, ?_⟩
      simp [InEither, inK, inA]

/-- Windows look as before if each of the two workspaces comes back as it was. -/
theorem appearance (comesBack : ∀ w, s.InEither k w → ¬s.IsDecoration w → s.ComesBack w)
    (plain : ¬s.IsDecoration v) : u.appearance v = s.appearance v := by
  have inPlace (w : Window) (either : s.InEither k w) (plain : ¬s.IsDecoration w) : s.InPlace w :=
    (comesBack w either plain).inPlace
  cases here : s.manager.info? v with
  | none =>
    have gone : u.manager.info? v = none := by
      rw [← Option.not_isSome_iff_eq_none]
      intro known
      have managed := round.crossed.steady.managed.mp (round.back.steady.managed.mp known)
      obtain ⟨info, there⟩ := managed_iff.mp managed
      exact absurd (here.symm.trans there) (by simp)
    rw [Shell.appearance, Shell.appearance, here, gone]
    rfl
  | some info =>
    obtain ⟨info', now, state, restoreRect⟩ := round.record inPlace plain here
    have rect := (round.still inPlace (managed_iff.mpr ⟨info, here⟩) plain).2
    have same : info'.restoreRect = info.restoreRect := by
      rw [restoreRect]
      split
      · rename_i visits
        exact ((comesBack v visits.1 plain info here).resolve_left visits.2).1.symm
      · rfl
    simp only [Shell.appearance, here, now, Option.map_some, state, rect, same]

theorem comesBack (acyclic : s.manager.Acyclic)
    (same : ∀ v, ¬s.IsDecoration v → u.appearance v = s.appearance v)
    (either : s.InEither k w) (plain : ¬s.IsDecoration w) : s.ComesBack w := by
  have look (v : Window) (plain : ¬s.IsDecoration v) {info : WindowInfo}
      (here : s.manager.info? v = some info) : ∃ info', u.manager.info? v = some info' ∧
        u.manager.rect v = s.manager.rect v ∧ info'.restoreRect = info.restoreRect := by
    have alike := same v plain
    rw [Shell.appearance, Shell.appearance, here] at alike
    obtain ⟨info', now, eq⟩ := Option.map_eq_some_iff.mp alike
    simp only [Prod.mk.injEq] at eq
    exact ⟨info', now, eq.2⟩
  have inPlace (w : Window) (either : s.InEither k w) (plain : ¬s.IsDecoration w) : s.InPlace w :=
    round.inPlace acyclic (fun v managed plain => by
      obtain ⟨info, here⟩ := managed_iff.mp managed
      obtain ⟨-, -, rect, -⟩ := look v plain here
      exact rect) either plain
  intro info here
  refine or_iff_not_imp_left.mpr fun shown => ⟨?_, inPlace w either plain⟩
  obtain ⟨info', now, -, restoreRect⟩ := round.record inPlace plain here
  obtain ⟨_, now', -, same⟩ := look w plain here
  obtain rfl := Option.some.inj (now.symm.trans now')
  rw [← same, restoreRect, if_pos ⟨either, shown⟩]

end ThereAndBack

end Shell

end Miral
