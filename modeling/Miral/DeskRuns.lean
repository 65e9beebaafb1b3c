import Miral.Pointing
import Miral.WorkspaceVisibility

/-! Whatever is typed, pointed at or touched, and whatever clients ask for in between, the windows
that are shown are those of the active workspace. -/
namespace Miral

open Program Prog Forest Model

/-- The workspaces are in order, and the policy's own are alive. -/
structure Shell.InOrder (s : Shell) : Prop where
  sound : s.Sound
  parted : s.Partitioned
  keys : ∀ key, s.keyToWorkspace key ∈ s.manager.liveWorkspaces

def Shell.StaysInOrder (s t : Shell) : Prop := s.InOrder → t.InOrder

instance : IsPreorder Shell Shell.StaysInOrder where
  refl _ := id
  trans _ _ _ first second := second ∘ first

theorem Shell.Switched.living {s u : Shell} {workspace : Workspace} {window : Option Window}
    (switched : s.Switched workspace window u) :
    u.manager.liveWorkspaces = s.manager.liveWorkspaces := by
  cases switched with
  | stays => rfl
  | @goes pre hidden s₁ s₂ s₃ m _ _ recalled carries shown _ left =>
    rw [rememberIf_eq]
    calc s₃.manager.liveWorkspaces
      _ = s₂.manager.liveWorkspaces := (steady_steps left).living
      _ = m.liveWorkspaces := (steady_steps shown).living
      _ = s₁.manager.liveWorkspaces := carries.regrouped.living
      _ = s.manager.liveWorkspaces := (steady_steps recalled).living

namespace Shell.InOrder

variable {s : Shell} {t : Model} {w : Window}

/-- The manager may change what has nothing to do with the workspaces, and show what is in the
active one. -/
theorem setManager (order : s.InOrder) (furnished : t.Furnished s.IsDecoration)
    (parents : ∀ v, t.parentOf v = s.manager.parentOf v)
    (types : ∀ v, t.typeOf v = s.manager.typeOf v)
    (pairs : ∀ k v, s.HasKey k →
      ((k, v) ∈ t.workspacesToWindows ↔ (k, v) ∈ s.manager.workspacesToWindows))
    (living : t.liveWorkspaces = s.manager.liveWorkspaces)
    (concealed : (s.setManager t).Concealed) : (s.setManager t).InOrder := by
  have managed (v : Window) : t.Managed v ↔ s.manager.Managed v := managed_of_types (types v)
  have parentOf : t.parentOf = s.manager.parentOf := funext parents
  obtain ⟨sound, parted, keys⟩ := order
  refine ⟨⟨sound.titled, furnished⟩,
    ⟨⟨parted.active, fun v known plain => ?_, fun v known plain => ?_, concealed⟩,
      fun v known => ?_, fun v w same k desk => ?_⟩, fun key => ?_⟩
  · obtain ⟨k, ⟨desk, member⟩, only⟩ := parted.home v ((managed v).mp known) plain
    exact ⟨k, ⟨desk, (pairs k v desk).mpr member⟩, fun k' ⟨desk', member'⟩ =>
      only k' ⟨desk', (pairs k' v desk').mp member'⟩⟩
  · change (s.policyData v).inHiddenWorkspace ↔ (s.activeWorkspace, v) ∉ t.workspacesToWindows
    rw [pairs _ v parted.active]
    exact parted.flagged v ((managed v).mp known) plain
  · change Rooted t.parentOf v
    rw [parentOf]
    exact parted.acyclic v ((managed v).mp known)
  · change (k, v) ∈ t.workspacesToWindows ↔ (k, w) ∈ t.workspacesToWindows
    change SameTree t.parentOf v w at same
    rw [parentOf] at same
    rw [pairs k v desk, pairs k w desk]
    exact parted.together v w same k desk
  · change s.keyToWorkspace key ∈ t.liveWorkspaces
    rw [living]
    exact keys key

theorem of_infos (order : s.InOrder) (furnished : t.Furnished s.IsDecoration)
    (parents : ∀ v, t.parentOf v = s.manager.parentOf v)
    (pairs : ∀ k v, s.HasKey k →
      ((k, v) ∈ t.workspacesToWindows ↔ (k, v) ∈ s.manager.workspacesToWindows))
    (living : t.liveWorkspaces = s.manager.liveWorkspaces)
    (types : ∀ v, t.typeOf v = s.manager.typeOf v)
    (states : ∀ v, t.stateOf v = s.manager.stateOf v) : (s.setManager t).InOrder := by
  refine order.setManager furnished parents types pairs living fun v info here plain flagged => ?_
  have same := states v
  change t.info? v = some info at here
  rw [stateOf_eq here] at same
  obtain ⟨info', here', eq⟩ := Option.map_eq_some_iff.mp same.symm
  rw [← eq]
  exact order.parted.concealed v info' here' plain flagged

theorem sameStructure (order : s.InOrder) (same : SameStructure s.manager t)
    (furnished : t.Furnished s.IsDecoration) (types : ∀ v, t.typeOf v = s.manager.typeOf v) :
    (s.setManager t).InOrder :=
  order.of_infos furnished same.parents (fun _ _ _ => by rw [same.workspaces]) same.living types
    same.states

theorem swept (order : s.InOrder) : (s.setManager s.manager.swept).InOrder := by
  have furnished := order.sound.furnished
  have coherent := furnished.coherent
  have coherent' : s.manager.swept.Coherent :=
    ⟨coherent.integrity.swept, coherent.synced, coherent.hides, coherent.posted⟩
  refine order.of_infos (furnished.of_types coherent' (fun _ => rfl) furnished.idle)
    (fun _ => rfl) (fun k v desk => ?_) rfl (fun _ => rfl) fun _ => rfl
  obtain ⟨key, rfl⟩ := desk
  have alive : s.keyToWorkspace key ∉ s.manager.deadWorkspaces := fun dead =>
    coherent.integrity.retired _ dead (order.keys key)
  simp [Model.swept, alive]

theorem retouched (order : s.InOrder) (touched : Retouched s.manager t) :
    (s.setManager t).InOrder :=
  order.sameStructure touched.sameStructure (order.sound.furnished.retouched touched) touched.types

theorem granted (order : s.InOrder) {info : WindowInfo} {value : WindowState}
    (shown : (s.policyData w).inHiddenWorkspace = false)
    (granted : Granted s.IsDecoration w (s.titlebar w) info value s.manager t) :
    (s.setManager t).InOrder := by
  refine order.setManager granted.furnished granted.parents granted.types
    (fun _ _ _ => by rw [granted.workspaces]) granted.living fun v info' here plain flagged => ?_
  change t.info? v = some info' at here
  have other : v ≠ w := by
    rintro rfl
    change (s.policyData v).inHiddenWorkspace = true at flagged
    rw [shown] at flagged
    contradiction
  rw [granted.infos v other plain] at here
  exact order.parted.concealed v info' here plain flagged

theorem remembering (order : s.InOrder) (w : Window) (value : WindowState) :
    (s.setPolicyData w { s.policyData w with oldState := value }).InOrder := by
  have flags (v : Window) : ((s.setPolicyData w
      { s.policyData w with oldState := value }).policyData v).inHiddenWorkspace =
        (s.policyData v).inHiddenWorkspace := by
    by_cases eq : v = w
    · simp [Shell.setPolicyData, eq]
    · simp [Shell.setPolicyData, eq]
  obtain ⟨sound, parted, keys⟩ := order
  refine ⟨⟨sound.titled, sound.furnished⟩,
    ⟨⟨parted.active, parted.home, fun v known plain => ?_,
      fun v info here plain flagged => ?_⟩, parted.acyclic, parted.together⟩, keys⟩
  · rw [flags]
    exact parted.flagged v known plain
  · rw [flags] at flagged
    exact parted.concealed v info here plain flagged

theorem unflagged (order : s.InOrder) (active : s.manager.activeWindow = some w) :
    (s.policyData w).inHiddenWorkspace = false := by
  have integrity := order.sound.furnished.coherent.integrity
  have listed := activeWindow_mem active
  have inside := order.parted.toAssigned.activeWindow order.sound active
  have flag := order.parted.flagged w (integrity.mru w listed)
    (order.sound.furnished.idle w listed)
  by_contra flagged
  exact flag.mp (by simpa using flagged) inside

end Shell.InOrder

open Shell

section Focus

variable {s : Shell} {m t : Model}

theorem closed_inOrder : FocusClosed fun m => (s.setManager m).InOrder where
  integrity m order := order.sound.furnished.coherent.integrity
  selected m x raised order focusable _ := by
    have furnished := order.sound.furnished
    refine order.sameStructure (.of_frame rfl) (furnished.of_types
      (furnished.coherent.focusOn focusable) (fun _ => rfl) fun v member => ?_) fun _ => rfl
    rcases List.mem_append.mp member with kept | new
    · exact furnished.idle v (List.mem_of_mem_filter kept)
    · obtain rfl := List.mem_singleton.mp new
      exact furnished.plain (fun _ => rfl) focusable
  next m order := by
    have furnished := order.sound.furnished
    exact order.sameStructure sameStructure_nextFocus (furnished.of_types
      furnished.coherent.nextFocus (fun _ => rfl) furnished.idle) fun _ => rfl

theorem Shell.InOrder.unfocus (order : s.InOrder) (hint : Option Window) :
    (s.setManager (s.manager.unfocus hint)).InOrder := by
  have furnished := order.sound.furnished
  have coherent : (s.manager.unfocus hint).Coherent := furnished.coherent.unfocus
  revert coherent
  unfold Model.unfocus
  split
  · exact fun coherent => order.sameStructure (.of_frame rfl)
      (furnished.of_types coherent (fun _ => rfl) furnished.idle) fun _ => rfl
  · exact fun _ => order

end Focus

namespace TitlebarPolicy

variable {s : Shell} {w : Window} {fuel : Nat} {α : Type}

theorem keeps_of_ensures {p : TitlebarPolicy α}
    (kept : ∀ s, s.InOrder → p.Ensures s (fun _ t => t.InOrder) (fun _ t => t.InOrder) True) :
    p.Keeps StaysInOrder := by
  intro s
  by_cases order : s.InOrder
  · exact (kept s order).mono (fun _ _ h _ => h) (fun _ _ h _ => h) id
  · exact ensures_always (fun _ _ h => absurd h order) (fun _ _ h => absurd h order) trivial

theorem keeps_managing {p : Manager α}
    (kept : ∀ s : Shell, s.InOrder → p.Ensures s.manager (fun _ t => (s.setManager t).InOrder)
      (fun _ t => (s.setManager t).InOrder) True) : (managing p).Keeps StaysInOrder :=
  keeps_of_ensures fun s order => by
    rw [ensures_managing]
    exact kept s order

theorem keeps_infoFor : (managing (infoFor w)).Keeps StaysInOrder := by
  refine keeps_managing fun s order => ?_
  rw [ensures_infoFor]
  exact ⟨fun _ _ => order, fun _ => order⟩

theorem keeps_selectActiveWindow (hint : Option Window) :
    (managing (selectActiveWindow fuel hint)).Keeps StaysInOrder := by
  refine keeps_managing fun s order => ?_
  have integrity := order.sound.furnished.coherent.integrity
  cases locked : s.manager.lock hint with
  | none =>
    refine (ensures_selectNull integrity locked).mono ?_ (fun _ _ h => h.elim) fun _ => trivial
    rintro _ t ⟨-, rfl⟩
    exact order.unfocus hint
  | some w =>
    obtain ⟨rfl, live⟩ := lock_eq_some.mp locked
    exact (closed_inOrder.select (s := s.manager) order live).mono (fun _ _ h => h)
      (fun _ _ h => h.elim) fun _ => trivial

/-- A window that is told its place, and maybe its size, is moved and resized with its titlebar. -/
theorem keeps_modifyWindow_placed (topLeft : Point) (size : Option Size) :
    (modifyWindow fuel w { topLeft := some topLeft, size := size }).Keeps StaysInOrder := by
  refine keeps_of_ensures fun s order => ?_
  have sound := order.sound
  have integrity := sound.furnished.coherent.integrity
  rw [modifyWindow, modifyWindowWith, ensures_bind, ensures_managing]
  cases here : s.manager.info? w with
  | none =>
    rw [beginModification, ensures_bind, requestedInfo, ensures_bind, ensures_infoFor]
    exact ⟨fun info found => by simp [here] at found, fun _ => order⟩
  | some info =>
    rw [ensures_beginModification here]
    have begun : Retouched s.manager (s.manager.setInfo w (s.manager.cachedInfo w info none)) :=
      retouched_cached here
    have live : (s.manager.setInfo w (s.manager.cachedInfo w info none)).Live w :=
      begun.undisturbed.live.mpr (integrity.live_of_info here)
    have there : (s.manager.setInfo w (s.manager.cachedInfo w info none)).info? w =
      some (s.manager.cachedInfo w info none) := by simp
    revert begun live there
    generalize s.manager.cachedInfo w info none = cached
    generalize s.manager.setInfo w cached = m
    intro begun live there
    have placed (size : Size) : (placeAndSize fuel w topLeft size).Ensures (s.setManager m)
        (fun _ t => t.InOrder) (fun _ t => t.InOrder) True := by
      refine (ensures_placeAndSize sound.titled (begun.integrity integrity) live
        topLeft size fun _ => trivial).mono ?_ (fun _ _ h => h.elim) id
      rintro _ _ ⟨t, rfl, reshaped, -⟩
      exact order.retouched (begun.trans reshaped.touched)
    rw [ensures_bind, updateGeometry, ensures_bind, ensures_managing]
    change (infoFor w).Ensures m _ _ _
    rw [ensures_infoFor_here there, ensures_bind, ensures_state]
    have finished (t : Shell) (kept : t.InOrder) : Prog.Ensures (do
        updatePlacement fuel w { topLeft := some topLeft, size := size }
        Prog.whenSome none (setState (adviseStateChange fuel fuel) fuel w)
        Prog.whenSome none fun confinePointer =>
          managing (configure w ({ · with confinePointer }))) t
        (fun _ t => t.InOrder) (fun _ t => t.InOrder) True := by
      rw [ensures_bind, updatePlacement, ensures_onlyIf]
      exact ⟨fun hinted => by simp at hinted, fun _ => kept⟩
    cases size with
    | some size => exact (placed size).mono (fun _ t kept => finished t kept) (fun _ _ h => h) id
    | none =>
      change Prog.Ensures (if ({ topLeft := some topLeft : WindowSpecification}).constrains then _
        else _) _ _ _ _
      rw [if_neg (by simp [WindowSpecification.constrains])]
      exact (placed _).mono (fun _ t kept => finished t kept) (fun _ _ h => h) id

variable {around : Surroundings}

theorem keeps_windowAt (cursor : Point) : (windowAt around cursor).Keeps StaysInOrder := by
  refine .bind .state fun s => ?_
  cases around.surfaceAt s.manager cursor with
  | some w => exact .bind keeps_infoFor fun _ => .pure _
  | none => exact .pure _

theorem keeps_dragActiveWindow (movement : Displacement) :
    (dragActiveWindow fuel movement).Keeps StaysInOrder := by
  refine .bind .state fun s => keeps_managing fun s order => ?_
  refine (ensures_dragWindow order.sound.furnished.coherent.integrity _ movement).mono ?_
    (fun _ _ h => h.elim) fun _ => trivial
  rintro _ t ⟨w, moved⟩
  exact order.retouched (.of_moved moved)

theorem keeps_click (cursor : Point) : (click around fuel cursor).Keeps StaysInOrder := by
  refine .bind (keeps_windowAt cursor) fun window => ?_
  cases window with
  | some w => exact .bind (keeps_selectActiveWindow _) fun _ => .pure _
  | none => exact .pure _

theorem keeps_dragFrom (oldCursor cursor : Point) :
    (dragFrom around fuel oldCursor cursor).Keeps StaysInOrder := by
  refine .bind (keeps_windowAt oldCursor) fun target => ?_
  cases target with
  | some target =>
    exact .bind (keeps_selectActiveWindow _) fun _ => .onlyIf (keeps_dragActiveWindow _)
  | none => exact .pure _

theorem keeps_dragTitlebar (oldCursor cursor : Point) :
    (dragTitlebar around fuel oldCursor cursor).Keeps StaysInOrder := by
  refine .bind (keeps_windowAt oldCursor) fun possibleTitlebar => ?_
  cases possibleTitlebar with
  | some possibleTitlebar =>
    refine .bind keeps_infoFor fun info => .bind .state fun s => .ite ?_ (.pure _)
    refine .bind (keeps_selectActiveWindow _) fun _ => ?_
    exact .bind (.onlyIf (keeps_dragActiveWindow _)) fun _ => .pure _
  | none => exact .pure _

theorem keeps_toggle (state : WindowState) : (toggle fuel state).Keeps StaysInOrder := by
  refine keeps_of_ensures fun s order => ?_
  rw [toggle, ensures_bind, ensures_state, ensures_whenSome]
  refine ⟨fun w active => ?_, fun _ => order⟩
  have coherent := order.sound.furnished.coherent
  obtain ⟨info, here⟩ := managed_iff.mp (coherent.integrity.managed_active active)
  rw [ensures_bind, ensures_managing, ensures_infoFor_here here]
  refine (ensures_placeForState order.sound here fun _ => trivial).mono ?_ (fun _ _ h => h.elim) id
  rintro _ _ ⟨t, rfl, granted⟩
  exact order.granted (order.unflagged active) granted

theorem keeps_settleSize : (settleSize fuel).Keeps StaysInOrder := by
  refine .bind .state fun s => .whenSome fun w => .bind keeps_infoFor fun info => ?_
  exact .bind (.ofExcept _) fun _ => keeps_modifyWindow_placed _ _

theorem keeps_moveToEdge (key : Key) : (moveToEdge fuel key).Keeps StaysInOrder := by
  refine .bind .state fun s => ?_
  cases s.manager.activeWindow with
  | some w =>
    refine .bind keeps_infoFor fun info => ?_
    cases edgeFor key s.manager.activeDisplay (s.manager.rect w) info.state with
    | some topLeft =>
      refine .bind (.whenSome fun topLeft => ?_) fun _ => .pure _
      exact keeps_modifyWindow_placed topLeft none
    | none => exact .pure _
  | none => exact .pure _

theorem keeps_resize (self : Grip) (window : Option Window) (cursor oldCursor : Point) :
    (resize fuel self window cursor oldCursor).Keeps StaysInOrder := by
  refine .bind .state fun s => ?_
  cases s.manager.lock window with
  | some w =>
    refine .bind keeps_infoFor fun info => ?_
    exact .bind (keeps_modifyWindow_placed _ _) fun _ => .pure _
  | none => exact .pure _

theorem keeps_focusSibling (order : List Window → List Window) (part : ∀ ws, order ws ⊆ ws) :
    (managing (focusSibling fuel order)).Keeps StaysInOrder :=
  keeps_managing fun s inOrder => (closed_inOrder.focusSibling (s := s.manager) order part
    inOrder).mono (fun _ _ h => h) (fun _ _ h => h.elim) id

theorem keeps_handleCommand (scanCode : Key) (modifiers : Modifiers) :
    (handleCommand fuel scanCode modifiers).Keeps StaysInOrder := by
  have nextApplication : (managing (focusNextApplication fuel)).Keeps StaysInOrder :=
    keeps_managing fun s order => (closed_inOrder.focusNextApplication (s := s.manager)
      order).mono (fun _ _ h => h) (fun _ _ h => h.elim) id
  refine .ite ?_ (.ite (.pure _) (.ite (.bind nextApplication fun _ => .pure _) (.ite ?_ (.ite ?_
    (.ite (keeps_moveToEdge _) (.pure _))))))
  · cases toggledBy modifiers with
    | some state => exact .bind (keeps_toggle state) fun _ => .pure _
    | none => exact .pure _
  · exact .bind (keeps_focusSibling id fun _ => List.Subset.refl _) fun _ => .pure _
  · exact .bind (keeps_focusSibling List.reverse fun _ _ => List.mem_reverse.mp) fun _ => .pure _

theorem keeps_locker : (managing locker).Keeps StaysInOrder :=
  keeps_managing fun _ order => order.swept

theorem keeps_note {f : Model → Model}
    (frame : ∀ m, f m = { m with
      lastInputEventTimestamp := (f m).lastInputEventTimestamp, cursor := (f m).cursor }) :
    (managing (Prog.update f)).Keeps StaysInOrder := by
  refine keeps_managing fun s order => ?_
  rw [ensures_update, frame]
  generalize (f s.manager).lastInputEventTimestamp = timestamp
  generalize (f s.manager).cursor = cursor
  have furnished := order.sound.furnished
  have coherent := furnished.coherent
  have same : SameStructure s.manager
    { s.manager with lastInputEventTimestamp := timestamp, cursor } := .of_frame rfl
  have integrity := coherent.integrity.sameStructure same coherent.integrity.mru
  exact order.sameStructure same (furnished.of_types
    ⟨integrity, coherent.synced, coherent.hides, coherent.posted⟩ (fun _ => rfl) furnished.idle)
    fun _ => rfl

theorem keeps_raise (timestamp : Nat) :
    (managing (handleRaiseSurface fuel w timestamp)).Keeps StaysInOrder :=
  keeps_managing fun s order => (closed_inOrder.handleRaiseSurface (s := s.manager)
    order).mono (fun _ _ h => h) (fun _ _ h => h) id

theorem ensures_switch (order : s.InOrder) (key : WorkspaceKey) (window : Option Window)
    (taken : window = none ∨ window = s.manager.activeWindow) :
    (switchWorkspaceTo fuel (s.keyToWorkspace key) window).Ensures s (fun _ t => t.InOrder)
      (fun _ t => t.InOrder) True := by
  refine (ensures_switchWorkspaceTo order.sound _ window).mono (fun _ t switched => ?_)
    (fun _ _ h => h.elim) fun _ => trivial
  obtain ⟨sound, parted, -, keys, -, -⟩ :=
    switched.partitioned order.sound order.parted ⟨key, rfl⟩ taken
  refine ⟨sound, parted, fun key => ?_⟩
  rw [keys, switched.living]
  exact order.keys key

/-- What a client asks of a window in a hidden workspace is kept for later, but for the place. -/
theorem keeps_requestState (value : WindowState) :
    (requestState fuel w value).Keeps StaysInOrder := by
  refine keeps_of_ensures fun s order => ?_
  have sound := order.sound
  cases here : s.manager.info? w with
  | none =>
    rw [requestState, ensures_attempt, modifySurface]
    change (handleRequest fuel w { state := some value }).Ensures s _ _ _
    rw [handleRequest, ensures_bind, ensures_managing, ensures_infoFor]
    exact ⟨fun info found => by simp [here] at found, fun _ => order⟩
  | some info =>
    have asked (accepted : s.manager.validateModificationRequest { state := some value } info =
        .ok () → (handleModifyWindow fuel w
          (placing (some value) (s.manager.placementFor w info value))).Ensures s
            (fun _ t => t.InOrder) (fun _ _ => False) True) :
        (requestState fuel w value).Ensures s (fun _ t => t.InOrder) (fun _ t => t.InOrder) True :=
      (ensures_requestState here (fun _ => order) accepted).mono (fun _ _ h => h)
        (fun _ _ h => h.elim) id
    by_cases flagged : (s.policyData w).inHiddenWorkspace
    · refine asked fun _ => ?_
      rw [handleModifyWindow, ensures_bind, ensures_state]
      change Prog.Ensures (if (s.policyData w).inHiddenWorkspace then _ else _) s _ _ _
      rw [if_pos flagged, ensures_bind, ensures_update, modifyWindow, modifyWindowWith]
      refine ensures_place (s := s.setPolicyData w { s.policyData w with oldState := value })
        (m := s.manager) sound.titled sound.furnished.coherent.integrity here none
        (s.manager.placementFor w info value) (fun _ => trivial) fun t reshaped _ _ => ?_
      have begun : Retouched s.manager (s.manager.setInfo w (s.manager.cachedInfo w info none)) :=
        retouched_cached here
      exact (order.remembering w value).retouched (begun.trans reshaped.touched)
    · have shown : (s.policyData w).inHiddenWorkspace = false := by simpa using flagged
      by_cases valid : s.manager.validateModificationRequest { state := some value } info = .ok ()
      · refine (ensures_requestState_shown sound here shown valid).mono ?_ (fun _ _ h => h.elim)
          fun _ => trivial
        rintro _ _ ⟨t, rfl, granted⟩
        exact order.granted shown granted
      · exact asked fun accepted => absurd accepted valid

end TitlebarPolicy

def Desk.StaysInOrder (d e : Desk) : Prop := d.shell.StaysInOrder e.shell

instance : IsPreorder Desk Desk.StaysInOrder where
  refl d := refl_of Shell.StaysInOrder d.shell
  trans _ _ _ first second := trans_of Shell.StaysInOrder first second

namespace Desk

open TitlebarPolicy

variable {around : Surroundings} {fuel : Nat}

theorem keeps_onShell {α : Type} {p : TitlebarPolicy α} (kept : p.Keeps Shell.StaysInOrder) :
    (onShell p).Keeps StaysInOrder := fun d => ensures_zoom.mpr (kept d.shell)

theorem keeps_update {f : Desk → Desk} (same : ∀ d, (f d).shell = d.shell) :
    (Prog.update f : DeskPolicy Unit).Keeps StaysInOrder :=
  .update fun d order => by
    rw [same]
    exact order

theorem keeps_endResize : (endResize fuel).Keeps StaysInOrder :=
  .bind .state fun _ => .onlyIf (.bind (keeps_onShell keeps_settleSize) fun _ =>
    keeps_update fun _ => rfl)

/-- The workspace of a key is switched to, with the active window or without any. -/
theorem keeps_handleKeyboardEvent (event : KeyboardEvent) :
    (handleKeyboardEvent fuel event).Keeps StaysInOrder := by
  have switches (d : Desk) (key : WorkspaceKey) (window : Option Window)
      (taken : window = none ∨ window = d.shell.manager.activeWindow) :
      Prog.Ensures (do
        onShell (switchWorkspaceTo fuel (d.shell.keyToWorkspace key) window)
        pure true : DeskPolicy Bool) d (fun _ e => d.StaysInOrder e) (fun _ e => d.StaysInOrder e)
        True := by
    rw [ensures_bind, onShell, ensures_zoom]
    by_cases order : d.shell.InOrder
    · exact (ensures_switch order key window taken).mono (fun _ _ h _ => h) (fun _ _ h _ => h) id
    · exact ensures_always (fun _ _ h => absurd h order) (fun _ _ h => absurd h order) trivial
  have others : (do
      Prog.onlyIf (event.action ≠ .repeat) (endResize fuel)
      if event.action = .down then
        onShell (handleCommand fuel event.scanCode event.modifiers)
      else pure false : DeskPolicy Bool).Keeps StaysInOrder := by
    refine .bind (.onlyIf keeps_endResize) fun _ => ?_
    exact .ite (keeps_onShell (keeps_handleCommand _ _)) (.pure _)
  intro d
  rw [handleKeyboardEvent, ensures_bind, ensures_state]
  dsimp only
  split
  · exact switches d _ none (.inl rfl)
  · exact switches d _ _ (.inr rfl)
  · exact others d

theorem keeps_resizeStep (event : PointerEvent) :
    (resizeStep around fuel event).Keeps StaysInOrder := by
  refine .bind .state fun d => .bind (.onlyIf (keeps_onShell ?_)) fun _ => .bind .state fun e => ?_
  · refine .bind (keeps_windowAt _) fun _ => ?_
    exact .bind (TitlebarPolicy.keeps_selectActiveWindow _) fun _ => .pure _
  · refine .bind (keeps_onShell (keeps_resize _ _ _ _)) fun step => ?_
    exact .bind (keeps_update fun _ => rfl) fun _ => .pure _

theorem keeps_gesture (event : PointerEvent) :
    (gesture around fuel event).Keeps StaysInOrder := by
  refine .bind .state fun d => .ite ?_ (.ite ?_ (.pure _))
  · exact .bind (keeps_onShell (keeps_click _)) fun _ => .pure _
  · refine .bind (.onlyIf (keeps_onShell (keeps_dragFrom _ _))) fun _ => ?_
    exact .ite (.ite (.pure _) (.bind (keeps_resizeStep event) fun _ => .pure _)) (.pure _)

theorem keeps_handlePointerEvent (event : PointerEvent) :
    (handlePointerEvent around fuel event).Keeps StaysInOrder := by
  refine .bind .state fun d => .bind (keeps_gesture event) fun result => ?_
  cases result with
  | none => exact .pure _
  | some result =>
    refine .ite (.bind (keeps_onShell (keeps_dragTitlebar _ _)) fun _ => ?_)
      (.bind (.pure _) fun _ => ?_)
    all_goals
      refine .bind (.onlyIf keeps_endResize) fun _ => ?_
      exact .bind (keeps_update fun _ => rfl) fun _ => .pure _

theorem keeps_pinchStep (soon : Bool) (new : Pinch) :
    (pinchStep fuel soon new).Keeps StaysInOrder := by
  refine .bind .state fun d => ?_
  cases d.shell.manager.activeWindow with
  | some w =>
    refine .bind (keeps_onShell TitlebarPolicy.keeps_infoFor) fun info => .ite (.pure _) ?_
    refine .bind (keeps_onShell (keeps_modifyWindow_placed _ _)) fun _ => ?_
    exact .bind (keeps_update fun _ => rfl) fun _ => .pure _
  | none => exact .pure _

theorem keeps_handleTouchEvent (event : TouchEvent) :
    (handleTouchEvent around fuel event).Keeps StaysInOrder := by
  refine .ite (.pure _) (.ite (.bind (keeps_pinchStep _ _) fun early => ?_)
    (.bind (.pure _) fun early => ?_))
  all_goals
    refine .ite (.pure _) (.bind (.onlyIf (keeps_onShell (keeps_click _))) fun _ => ?_)
    refine .bind .state fun d => .bind (.onlyIf keeps_endResize) fun _ => ?_
    exact .bind (keeps_update fun _ => rfl) fun _ => .pure _

theorem keeps_handle (event : DeskEvent) : (handle around fuel event).Keeps StaysInOrder := by
  have locks : (onShell (managing locker)).Keeps StaysInOrder := keeps_onShell keeps_locker
  have stamps (counts : Prop) [Decidable counts] (time : Nat) :
      (onShell (updateEventTimestamp counts time)).Keeps StaysInOrder :=
    keeps_onShell (.onlyIf (keeps_note fun _ => rfl))
  cases event with
  | keyboard event =>
    refine .bind locks fun _ => .bind (stamps _ _) fun _ => ?_
    exact .bind (keeps_handleKeyboardEvent event) fun _ => .pure _
  | pointer event =>
    refine .bind locks fun _ => .bind (stamps _ _) fun _ => ?_
    refine .bind (keeps_onShell (keeps_note fun _ => rfl)) fun _ => ?_
    exact .bind (keeps_handlePointerEvent event) fun _ => .pure _
  | touch event =>
    refine .bind locks fun _ => .bind (stamps _ _) fun _ => ?_
    exact .bind (keeps_handleTouchEvent event) fun _ => .pure _
  | requestState w value => exact .bind locks fun _ => keeps_onShell (keeps_requestState value)
  | raise w timestamp => exact .bind locks fun _ => keeps_onShell (keeps_raise timestamp)

end Desk

/-- Whatever is typed, pointed at and touched, and whatever clients ask for in between: each window
is in one workspace, it is hidden unless that is the active one, and the active window is there. -/
theorem active_workspace_is_shown {around : Surroundings} {events : List DeskEvent} {d e : Desk}
    (order : d.shell.InOrder)
    (run : Runs (fun fuel event => Desk.handle around fuel event) events d e) :
    e.shell.InOrder ∧
    (∀ w, e.shell.manager.Managed w → ¬e.shell.IsDecoration w →
      (∃! k, e.shell.HasKey k ∧ (k, w) ∈ e.shell.manager.workspacesToWindows) ∧
      ((e.shell.activeWorkspace, w) ∉ e.shell.manager.workspacesToWindows →
        e.shell.manager.stateOf w = some .hidden)) ∧
    ∀ w, e.shell.manager.activeWindow = some w →
      (e.shell.activeWorkspace, w) ∈ e.shell.manager.workspacesToWindows := by
  have kept : e.shell.InOrder :=
    Keeps.runs (R := Desk.StaysInOrder) (fun _ event => Desk.keeps_handle event) run order
  have parted := kept.parted
  refine ⟨kept, fun w known plain => ⟨parted.home w known plain, fun elsewhere => ?_⟩,
    fun w active => parted.toAssigned.activeWindow kept.sound active⟩
  obtain ⟨info, here⟩ := managed_iff.mp known
  rw [stateOf_eq here, parted.concealed w info here plain
    ((parted.flagged w known plain).mpr elsewhere)]

/-- The active window is taken along to the second workspace and left there, where neither a click
nor its client can show it; a client of the others asks for more while they are away. -/
def Desk.leaving : List DeskEvent :=
  [.keyboard ⟨1, .down, .f2, { ctrl := true, metaKey := true }⟩,
    .requestState ⟨1, 1⟩ .maximized,
    .pointer ⟨2, .buttonDown, {}, ⟨300, 200⟩, true, false, false⟩,
    .keyboard ⟨3, .down, .f1, { alt := true, metaKey := true }⟩,
    .touch ⟨4, [⟨300, 200, .down⟩], by simp, false⟩,
    .requestState ⟨1, 3⟩ .restored,
    .raise ⟨1, 3⟩ 4]

def Desk.untouched (m : Model) : Desk :=
  ⟨.undecorated m, ⟨false, false, false⟩, false, ⟨0, 0⟩, ⟨0, 0, 0, 0⟩⟩

theorem inOrder_crowdedState : (Desk.untouched crowdedState).shell.InOrder := by
  have living : crowdedState.liveWorkspaces = [0, 1, 2, 3] := by decide +kernel
  refine ⟨sound_crowdedState, partitioned_crowdedState, fun key => ?_⟩
  change (Shell.undecorated crowdedState).keyToWorkspace key ∈ crowdedState.liveWorkspaces
  rw [living]
  cases key <;> simp [Shell.undecorated]

theorem active_workspace_is_shown_leaving : ∃ e : Desk,
    Runs (fun fuel event => Desk.handle .topmost fuel event) Desk.leaving
      (.untouched crowdedState) e ∧
    e.shell.activeWorkspace = 0 ∧ e.shell.manager.stateOf ⟨1, 3⟩ = some .hidden := by
  have ends : (follow (Desk.handle .topmost 12) Desk.leaving (.untouched crowdedState)).map
      (fun e => (e.shell.activeWorkspace, e.shell.manager.workspacesToWindows,
        (e.shell.manager.info? ⟨1, 3⟩).isSome, e.shell.decorations)) =
      some (0, [(0, ⟨1, 1⟩), (0, ⟨1, 2⟩), (1, ⟨1, 3⟩)], true, none) := by
    decide +kernel
  have order := inOrder_crowdedState
  revert ends order
  generalize crowdedState = m
  intro ends order
  obtain ⟨e, run, after⟩ := Option.map_eq_some_iff.mp ends
  simp only [Prod.mk.injEq] at after
  obtain ⟨active, pairs, known, decorations⟩ := after
  have run : Runs (fun fuel event => Desk.handle .topmost fuel event) Desk.leaving
    (.untouched m) e := .of_follow run
  obtain ⟨-, hidden, -⟩ := active_workspace_is_shown order run
  refine ⟨e, run, active, (hidden ⟨1, 3⟩ known ?_).2 ?_⟩
  · simp [Shell.IsDecoration, decorations]
  · simp [active, pairs]

end Miral
