import Miral.DragGesture

/-! Resizing with Alt and the third button: over a whole gesture the corner that is held follows the
pointer and the opposite one stays, however many of the events come too soon to be acted on. -/
namespace Miral

open Program Prog Forest Model TitlebarPolicy

namespace Grip

/-- The rectangle with the held sides moved. -/
def stretch (grip : Grip) (r : Rectangle) (d : Displacement) : Rectangle :=
  ⟨⟨if grip.leftResize then r.topLeft.x + d.dx else r.topLeft.x,
    if grip.topResize then r.topLeft.y + d.dy else r.topLeft.y⟩,
    ⟨if grip.leftResize then r.size.width - d.dx else r.size.width + d.dx,
      if grip.topResize then r.size.height - d.dy else r.size.height + d.dy⟩⟩

variable {grip : Grip} {r : Rectangle} {a b : Displacement}

theorem stretch_stretch : grip.stretch (grip.stretch r a) b = grip.stretch r (a + b) := by
  cases left : grip.leftResize <;> cases top : grip.topResize <;>
    simp [stretch, left, top] <;> omega

theorem stretch_zero : grip.stretch r ⟨0, 0⟩ = r := by
  cases left : grip.leftResize <;> cases top : grip.topResize <;> simp [stretch, left, top]

theorem opposite_stretch : grip.opposite (grip.stretch r a) = grip.opposite r := by
  cases left : grip.leftResize <;> cases top : grip.topResize <;>
    simp [stretch, opposite, left, top, Rectangle.left, Rectangle.top, Rectangle.right,
      Rectangle.bottom]

end Grip

/-- A size that `keep_size_within_limits` leaves alone. -/
structure TitlebarPolicy.Fits (windowInfo : WindowInfo) (size : Size) : Prop extends
    Limits windowInfo size where
  broad : 5 ≤ size.width
  high : 5 ≤ size.height

theorem resized_of_fits {grip : Grip} {windowInfo : WindowInfo} {oldPos : Rectangle}
    {cursor oldCursor : Point}
    (fits : Fits windowInfo (grip.stretch oldPos (cursor - oldCursor)).size) :
    resized grip windowInfo oldPos cursor oldCursor =
      grip.stretch oldPos (cursor - oldCursor) := by
  have width : oldPos.size.width + (if grip.leftResize then -1 else 1) * (cursor - oldCursor).dx =
      (grip.stretch oldPos (cursor - oldCursor)).size.width := by
    cases left : grip.leftResize
    all_goals
      simp [Grip.stretch, left]
      try omega
  have height : oldPos.size.height + (if grip.topResize then -1 else 1) * (cursor - oldCursor).dy =
      (grip.stretch oldPos (cursor - oldCursor)).size.height := by
    cases top : grip.topResize
    all_goals
      simp [Grip.stretch, top]
      try omega
  have across : Stretch.within windowInfo.minWidth windowInfo.maxWidth
      ⟨(grip.stretch oldPos (cursor - oldCursor)).size.width, (cursor - oldCursor).dx⟩ = _ :=
    Stretch.within_of_fits ⟨Int.max_le.mpr ⟨fits.wide, fits.broad⟩, fits.narrow⟩
  have down : Stretch.within windowInfo.minHeight windowInfo.maxHeight
      ⟨(grip.stretch oldPos (cursor - oldCursor)).size.height, (cursor - oldCursor).dy⟩ = _ :=
    Stretch.within_of_fits ⟨Int.max_le.mpr ⟨fits.tall, fits.high⟩, fits.low⟩
  simp only [resized, keepSizeWithinLimits, width, height, across, down]
  refine congrArg (Rectangle.mk · _) (Point.ext ?_ ?_)
  · cases grip.leftResize <;> simp
  · cases grip.topResize <;> simp

/-- The sides of `w` that are held have been moved; its tree and the titlebars may have followed. -/
structure Shell.Stretched (w : Window) (grip : Grip) (movement : Displacement) (s t : Shell) :
    Prop where
  manager : t = s.setManager t.manager
  order : t.InOrder
  parents : t.manager.parentOf = s.manager.parentOf
  rect : t.manager.rect w = grip.stretch (s.manager.rect w) movement
  record : ∀ info, s.manager.info? w = some info →
    ∃ restoreRect, t.manager.info? w = some { info with restoreRect }
  outside : ∀ v, ¬s.IsDecoration v → ¬Above s.manager.parentOf w v →
    t.manager.rect v = s.manager.rect v

namespace Shell.Stretched

variable {w : Window} {grip : Grip} {a b : Displacement} {s t u : Shell}

theorem trans (first : Stretched w grip a s t) (second : Stretched w grip b t u) :
    Stretched w grip (a + b) s u where
  manager := by
    rw [second.manager, first.manager]
    rfl
  order := second.order
  parents := second.parents.trans first.parents
  rect := by rw [second.rect, first.rect, Grip.stretch_stretch]
  record info here := by
    obtain ⟨restoreRect, there⟩ := first.record info here
    obtain ⟨restoreRect', there'⟩ := second.record { info with restoreRect } there
    exact ⟨restoreRect', there'⟩
  outside v plain apart := by
    have plain' : ¬t.IsDecoration v := by
      rw [first.manager]
      exact plain
    exact (second.outside v plain' (first.parents ▸ apart)).trans (first.outside v plain apart)

theorem held {resizing : Bool} (stretched : Stretched w { grip with resizing } a s t) :
    Stretched w grip a s t :=
  ⟨stretched.manager, stretched.order, stretched.parents, stretched.rect, stretched.record,
    stretched.outside⟩

theorem of_towed {m : Model} (order : (s.setManager m).InOrder)
    (towed : s.manager.Towed w ⟨0, 0⟩ m) : Stretched w grip ⟨0, 0⟩ s (s.setManager m) where
  manager := rfl
  order := order
  parents := towed.parents
  rect := by
    have place : m.topLeft w = s.manager.topLeft w := by
      rw [towed.inside w .refl]
      exact Point.ext (by simp) (by simp)
    rw [Grip.stretch_zero, Model.rect, Model.rect, ← place, ← towed.sizes w]
    rfl
  record info here := ⟨info.restoreRect, (towed.infos w).trans here⟩
  outside v _ apart := by
    rw [Model.rect, Model.rect, ← towed.outside v apart, ← towed.sizes v]
    rfl

end Shell.Stretched

namespace TitlebarPolicy

variable {w : Window} {info : WindowInfo} {fuel : Nat}

/-- A window told its place and size has them. -/
theorem ensures_modifyWindow_stretched {s : Shell} {grip : Grip} {movement : Displacement}
    (order : s.InOrder) (here : s.manager.info? w = some info) {rect : Rectangle}
    (asked : rect = grip.stretch (s.manager.rect w) movement) :
    (modifyWindow fuel w { topLeft := some rect.topLeft, size := some rect.size }).Ensures s
      (fun _ u => s.Stretched w grip movement u ∧ u.manager.activeWindow = s.manager.activeWindow)
      (fun _ _ => False) (s.manager.Short fuel) := by
  have integrity := order.sound.furnished.coherent.integrity
  obtain ⟨restoreRect, cached⟩ := s.manager.cachedInfo_eq w info none
  have begun : Retouched s.manager (s.manager.setInfo w { info with restoreRect }) :=
    cached ▸ retouched_cached here
  have live := begun.undisturbed.live.mpr (integrity.live_of_info here)
  have there : (s.manager.setInfo w { info with restoreRect }).info? w =
    some { info with restoreRect } := by simp
  rw [modifyWindow, modifyWindowWith, ensures_bind, ensures_managing,
    ensures_beginModification here, cached, ensures_bind, updateGeometry, ensures_bind,
    ensures_managing]
  change (infoFor w).Ensures (s.manager.setInfo w { info with restoreRect }) _ _ _
  rw [ensures_infoFor_here there, ensures_bind, ensures_state]
  refine (ensures_placeAndSize order.sound.titled (begun.integrity integrity) live rect.topLeft
    rect.size (Short.congr begun.sameStructure.parents)).mono ?_ (fun _ _ h => h) id
  rintro _ _ ⟨t, rfl, reshaped, placed, -⟩
  rw [ensures_bind, updatePlacement, ensures_onlyIf]
  refine ⟨fun hinted => by simp at hinted, fun _ => ?_⟩
  have touched := begun.trans reshaped.touched
  have active : t.activeWindow = s.manager.activeWindow := touched.undisturbed.activeWindow
  refine ⟨⟨rfl, order.retouched touched, funext touched.sameStructure.parents, placed.trans asked,
    fun info' here' => ⟨restoreRect, ?_⟩, fun v plain apart => ?_⟩, active⟩
  · obtain rfl := Option.some.inj (here.symm.trans here')
    exact (reshaped.infos w).trans there
  · have same := reshaped.outside v plain (by rwa [funext begun.sameStructure.parents])
    change t.rect v = _
    rw [Model.rect, topLeft, size, same]
    rfl

theorem ensures_resize_stretched {s : Shell} {self grip : Grip} {cursor oldCursor : Point}
    (order : s.InOrder) (here : s.manager.info? w = some info)
    (held : self.take (s.manager.rect w) oldCursor = grip)
    (fits : Fits info (grip.stretch (s.manager.rect w) (cursor - oldCursor)).size) :
    (resize fuel self (some w) cursor oldCursor).Ensures s
      (fun r u => r = (grip, true) ∧ s.Stretched w grip (cursor - oldCursor) u ∧
        u.manager.activeWindow = s.manager.activeWindow)
      (fun _ _ => False) (s.manager.Short fuel) := by
  have live := order.sound.furnished.coherent.integrity.live_of_info here
  unfold Prog.Ensures
  rw [run_resize fuel live here]
  change (carryOut fuel w _).Ensures s _ _ _
  rw [carryOut, ensures_bind, resizeStep, held]
  refine (ensures_modifyWindow_stretched order here (resized_of_fits fits)).imp ?_
  rintro _ u stretched
  exact ⟨rfl, stretched⟩

end TitlebarPolicy

structure PointerEvent.Resizes (event : PointerEvent) : Prop where
  action : event.action = .motion
  modifiers : event.modifiers = { alt := true }
  primary : event.primary = false
  tertiary : event.tertiary = true

namespace Desk

variable {around : Surroundings} {w : Window} {info : WindowInfo} {fuel : Nat} {d e : Desk}
  {event : PointerEvent}

/-- What is left of the handler: an event that comes too soon changes nothing, and any other one
is a step of the resize. -/
theorem ensures_handlePointerEvent_resize (resizes : event.Resizes) {post : Desk → Prop}
    {error : Failure → Desk → Prop} {short : Prop}
    (soon : d.grip.resizing = true → event.soon = true → post d)
    (step : ¬(d.grip.resizing = true ∧ event.soon = true) →
      (resizeStep around fuel event).Ensures d (fun r e => r = true ∧ post
        { e with grip := { e.grip with resizing := true }, oldCursor := event.cursor })
        error short) :
    (handlePointerEvent around fuel event).Ensures d (fun _ => post) error short := by
  rw [handlePointerEvent, ensures_bind, ensures_state, ensures_bind, gesture, ensures_bind,
    ensures_state, if_neg (by simp [resizes.action]), if_pos ⟨resizes.action, resizes.modifiers⟩,
    ensures_bind, ensures_onlyIf]
  refine ⟨fun primary => absurd (resizes.primary.symm.trans primary) Bool.false_ne_true,
    fun _ => ?_⟩
  rw [if_pos resizes.tertiary]
  by_cases early : d.grip.resizing = true ∧ event.soon = true
  · rw [if_pos early, ensures_pure]
    exact soon early.1 early.2
  · rw [if_neg early, ensures_bind]
    refine (step early).imp ?_
    rintro _ e ⟨rfl, after⟩
    rw [ensures_pure]
    dsimp only
    rw [if_neg fun unconsumed => unconsumed.1 rfl, ensures_bind, ensures_pure, ensures_bind,
      ensures_onlyIf]
    refine ⟨fun ends => absurd rfl ends.2, fun _ => ?_⟩
    rw [ensures_bind, ensures_update, ensures_pure]
    exact after

theorem ensures_choose (order : d.shell.InOrder) (here : d.shell.manager.info? w = some info)
    (picks : d.shell.manager.Picks w (some w)) {oldCursor : Point}
    (pointed : around.surfaceAt d.shell.manager oldCursor = some w) {grip : Grip} :
    (onShell (do
      let window ← windowAt around oldCursor
      let _ ← managing (selectActiveWindow fuel window)
      pure ()) : DeskPolicy Unit).Ensures d
      (fun _ e => e = d.setShell e.shell ∧ d.shell.Stretched w grip ⟨0, 0⟩ e.shell ∧
        e.shell.manager.activeWindow = some w)
      (fun _ _ => False) (d.shell.manager.Short fuel) := by
  have coherent := order.sound.furnished.coherent
  rw [onShell, ensures_zoom, ensures_bind]
  apply ensures_windowAt_here here pointed
  rw [ensures_bind, ensures_managing]
  have kept : (selectActiveWindow fuel (some w)).Ensures d.shell.manager
      (fun _ t => d.shell.StaysInOrder (d.shell.setManager t))
      (fun _ t => d.shell.StaysInOrder (d.shell.setManager t)) True :=
    ensures_managing.mp (TitlebarPolicy.keeps_selectActiveWindow (some w) d.shell)
  refine ((ensures_select_towed ⟨coherent.integrity, coherent.synced⟩ picks).and kept).mono ?_
    (fun _ _ h => h.1) And.left
  rintro r t ⟨⟨-, towed, -, active⟩, kept⟩
  exact ⟨rfl, .of_towed (kept order) towed, active⟩

/-- A step of a resize of `w`, which it holds with `grip`. -/
theorem ensures_resizeStep_stretched (order : d.shell.InOrder)
    (here : d.shell.manager.info? w = some info)
    (begins : d.grip.resizing = false → d.shell.manager.Picks w (some w) ∧
      around.surfaceAt d.shell.manager d.oldCursor = some w)
    (goes : d.grip.resizing = true → d.shell.manager.activeWindow = some w) {grip : Grip}
    (held : d.grip.take (d.shell.manager.rect w) d.oldCursor = grip)
    (fits : Fits info (grip.stretch (d.shell.manager.rect w) (event.cursor - d.oldCursor)).size) :
    (resizeStep around fuel event).Ensures d
      (fun r e => r = true ∧ e = { d.setShell e.shell with grip } ∧
        d.shell.Stretched w grip (event.cursor - d.oldCursor) e.shell ∧
        e.shell.manager.activeWindow = some w)
      (fun _ _ => False) (d.shell.manager.Short fuel) := by
  rw [resizeStep, ensures_bind, ensures_state, ensures_bind]
  have chosen : Prog.Ensures (Prog.onlyIf (¬d.grip.resizing) <| onShell do
      let window ← windowAt around d.oldCursor
      let _ ← managing (selectActiveWindow fuel window)
      pure () : DeskPolicy Unit) d
      (fun _ e => e = d.setShell e.shell ∧ d.shell.Stretched w grip ⟨0, 0⟩ e.shell ∧
        e.shell.manager.activeWindow = some w)
      (fun _ _ => False) (d.shell.manager.Short fuel) := by
    rw [ensures_onlyIf]
    refine ⟨fun fresh => ?_, fun resizing => ?_⟩
    · obtain ⟨picks, pointed⟩ := begins (by simpa using fresh)
      exact ensures_choose order here picks pointed
    · have unmoved : d.shell.Stretched w grip ⟨0, 0⟩ (d.shell.setManager d.shell.manager) :=
        .of_towed order (.of_same (fun _ => rfl) fun _ => rfl)
      exact ⟨rfl, unmoved, goes (by simpa using resizing)⟩
  refine chosen.mono ?_ (fun _ _ h => h) id
  rintro _ c ⟨same, first, active⟩
  obtain ⟨restoreRect, there⟩ := first.record info here
  have rect : c.shell.manager.rect w = d.shell.manager.rect w := by
    rw [first.rect, Grip.stretch_zero]
  rw [ensures_bind, ensures_state, ensures_bind, onShell, ensures_zoom, active]
  have held' : d.grip.take (c.shell.manager.rect w) d.oldCursor = grip := by rw [rect, held]
  have fits' : Fits { info with restoreRect }
      (grip.stretch (c.shell.manager.rect w) (event.cursor - d.oldCursor)).size := by
    rw [rect]
    exact ⟨⟨fits.wide, fits.narrow, fits.tall, fits.low⟩, fits.broad, fits.high⟩
  refine (ensures_resize_stretched first.order there held' fits').mono ?_ (fun _ _ h => h)
    (Short.congr (congrFun first.parents))
  rintro _ u ⟨rfl, second, unchanged⟩
  rw [ensures_bind, ensures_update, ensures_pure]
  have whole := first.trans second
  rw [Displacement.zero_add] at whole
  refine ⟨rfl, ?_, whole, unchanged.trans active⟩
  rw [same]
  rfl

theorem noticed_inOrder (order : d.shell.InOrder) (cursor : Point) :
    (d.noticed cursor).shell.InOrder := by
  have noted := TitlebarPolicy.keeps_note (f := fun m => { m with cursor }) (fun _ => rfl)
    (d.shell.setManager d.shell.manager.swept)
  rw [ensures_managing, ensures_update] at noted
  exact noted order.swept

theorem noticed_stretched (order : d.shell.InOrder) (cursor : Point) {grip : Grip} :
    d.shell.Stretched w grip ⟨0, 0⟩ (d.noticed cursor).shell :=
  .of_towed (noticed_inOrder order cursor) (noticed_lifted cursor).toTowed

/-- Where a resize of `w` has come to that was at `d`, when the pointer has come to `cursor`. -/
structure Resizing (w : Window) (grip : Grip) (cursor : Point) (d e : Desk) : Prop where
  holds : e.grip = { grip with resizing := true }
  arrived : e.oldCursor = cursor
  stretched : d.shell.Stretched w grip (cursor - d.oldCursor) e.shell
  active : e.shell.manager.activeWindow = some w

theorem ensures_handle_resize (topmost : around.Topmost) (resizes : event.Resizes)
    (order : d.shell.InOrder) (here : d.shell.manager.info? w = some info)
    (begins : d.grip.resizing = false → d.shell.manager.Picks w (some w) ∧
      around.surfaceAt d.shell.manager d.oldCursor = some w)
    (goes : d.grip.resizing = true → d.shell.manager.activeWindow = some w) {grip : Grip}
    (held : d.grip.take (d.shell.manager.rect w) d.oldCursor = grip)
    (fits : ¬(d.grip.resizing = true ∧ event.soon = true) →
      Fits info (grip.stretch (d.shell.manager.rect w) (event.cursor - d.oldCursor)).size) :
    (handle around fuel (.pointer event)).Ensures d
      (fun _ => Resizing w grip
        (if d.grip.resizing = true ∧ event.soon = true then d.oldCursor else event.cursor) d)
      (fun _ _ => False) (d.shell.manager.Short fuel) := by
  have same : d.shell.manager.Lifted w ⟨0, 0⟩ (d.noticed event.cursor).shell.manager :=
    noticed_lifted event.cursor
  have first : d.shell.Stretched w grip ⟨0, 0⟩ (d.noticed event.cursor).shell :=
    noticed_stretched order event.cursor
  refine ensures_handle_motion resizes.action
    (ensures_handlePointerEvent_resize resizes (fun resizing soon => ?_) fun early => ?_)
  · change d.grip.resizing = true at resizing
    rw [Grip.take, if_pos resizing] at held
    rw [if_pos ⟨resizing, soon⟩]
    refine ⟨?_, rfl, ?_, goes resizing⟩
    · rw [← held, ← resizing]
      rfl
    · rw [Point.sub_eq_zero.mpr rfl]
      exact first
  · change ¬(d.grip.resizing = true ∧ event.soon = true) at early
    rw [if_neg early]
    refine (ensures_resizeStep_stretched first.order ((same.infos w).trans here)
      (fun fresh => ?_) goes held (fits early)).mono ?_ (fun _ _ h => h)
      (Short.congr (congrFun same.parents))
    · obtain ⟨picks, pointed⟩ := begins fresh
      -- what has been noticed so far does not change what is on top
      have unchanged : around.surfaceAt (d.noticed event.cursor).shell.manager d.oldCursor =
          around.surfaceAt d.shell.manager d.oldCursor := by
        rw [topmost, topmost]
        rfl
      exact ⟨same.alike.picks picks, unchanged.trans pointed⟩
    · rintro _ e ⟨rfl, after, second, active⟩
      have whole := first.trans second
      rw [Displacement.zero_add] at whole
      refine ⟨rfl, ?_, rfl, whole, active⟩
      rw [after]

theorem Resizing.trans {grip : Grip} {c : Desk} {p q : Point} (first : Resizing w grip p d c)
    (second : Resizing w { grip with resizing := true } q c e) : Resizing w grip q d e := by
  refine ⟨second.holds, second.arrived, ?_, second.active⟩
  have whole := first.stretched.trans second.stretched.held
  rwa [first.arrived, Point.sub_add_sub] at whole

/-- A resize goes on from where it has come to. -/
theorem Resizing.steps {grip : Grip} {c : Desk} {cursor : Point} (topmost : around.Topmost)
    (here : d.shell.manager.info? w = some info) (enough : ¬d.shell.manager.Short fuel)
    {events : List PointerEvent} (resizes : ∀ event ∈ events, event.Resizes)
    (fits : ∀ event ∈ events, event.soon = false →
      Fits info (grip.stretch (d.shell.manager.rect w) (event.cursor - d.oldCursor)).size)
    (resizing : Resizing w grip cursor d c) :
    ∃ e, Steps (Points around fuel) events c e ∧ Resizing w grip
      (((events.filter (!·.soon)).map PointerEvent.cursor).getLastD cursor) d e := by
  induction events generalizing c cursor with
  | nil => exact ⟨c, .nil c, resizing⟩
  | cons event rest ih =>
    have stretched := resizing.stretched
    obtain ⟨restoreRect, there⟩ := stretched.record info here
    have going : c.grip.resizing = true := by rw [resizing.holds]
    have held : c.grip.take (c.shell.manager.rect w) c.oldCursor =
        { grip with resizing := true } := by
      rw [Grip.take, if_pos going, resizing.holds]
    have room (late : ¬(c.grip.resizing = true ∧ event.soon = true)) :
        Fits { info with restoreRect } (Grip.stretch { grip with resizing := true }
          (c.shell.manager.rect w) (event.cursor - c.oldCursor)).size := by
      have whole : Grip.stretch { grip with resizing := true } (c.shell.manager.rect w)
          (event.cursor - c.oldCursor) =
            grip.stretch (d.shell.manager.rect w) (event.cursor - d.oldCursor) := by
        rw [stretched.rect, resizing.arrived, ← Point.sub_add_sub d.oldCursor cursor event.cursor]
        exact Grip.stretch_stretch
      have fit := fits event (by simp) (by simpa [going] using late)
      rw [whole]
      exact ⟨⟨fit.wide, fit.narrow, fit.tall, fit.low⟩, fit.broad, fit.high⟩
    have step : (handle around fuel (.pointer event)).Ensures c _ _ _ :=
      ensures_handle_resize topmost (resizes event (by simp)) stretched.order there
        (fun fresh => absurd (fresh.symm.trans going) Bool.false_ne_true)
        (fun _ => resizing.active) held room
    obtain ⟨_, next, act, after⟩ := step.returns fun short =>
      enough (Short.congr (congrFun stretched.parents) short)
    obtain ⟨e, run, last⟩ := ih (fun other member => resizes other (by simp [member]))
      (fun other member => fits other (by simp [member])) (resizing.trans after)
    refine ⟨e, .cons act run, ?_⟩
    cases soon : event.soon with
    | true =>
      rw [if_pos ⟨going, soon⟩, resizing.arrived] at last
      rwa [List.filter_cons_of_neg (by simp [soon])]
    | false =>
      rw [if_neg (by simp [soon])] at last
      rwa [List.filter_cons_of_pos (by simp [soon]), List.map_cons, List.getLastD_cons]

end Desk

/-- The events of a resize that are acted on: the first one, and those that do not come too soon. -/
def PointerEvent.timely : List PointerEvent → List PointerEvent
  | [] => []
  | event :: rest => event :: rest.filter (!·.soon)

/-- A gesture on a window that is there, that selecting selects and that the pointer is on: with
enough fuel every event is carried out, and as long as no limit of the window is reached all of them
together move the corner that was taken by the way of the pointer up to the last event acted on, as
if the others had not been. The opposite corner stays where it was, and so does every window that is
neither below this one nor a decoration; the window is active and held on to. -/
theorem resize_gesture_follows_pointer {around : Surroundings} {w : Window} {info : WindowInfo}
    {d : Desk} {grip : Grip} (topmost : around.Topmost) (order : d.shell.InOrder)
    (acyclic : d.shell.manager.Acyclic) (begins : d.grip.resizing = false)
    (here : d.shell.manager.info? w = some info) (picks : d.shell.manager.Picks w (some w))
    (pointed : around.surfaceAt d.shell.manager d.oldCursor = some w)
    (taken : d.grip.take (d.shell.manager.rect w) d.oldCursor = grip)
    {events : List PointerEvent} (resizes : ∀ event ∈ events, event.Resizes)
    (fits : ∀ event ∈ PointerEvent.timely events,
      Fits info (grip.stretch (d.shell.manager.rect w) (event.cursor - d.oldCursor)).size) :
    ∃ n, ∀ fuel ≥ n, ∃ e, Steps (Desk.Points around fuel) events d e ∧
      e.shell.manager.rect w = grip.stretch (d.shell.manager.rect w)
        (((PointerEvent.timely events).map PointerEvent.cursor).getLastD d.oldCursor -
          d.oldCursor) ∧
      grip.opposite (e.shell.manager.rect w) = grip.opposite (d.shell.manager.rect w) ∧
      (∀ v, ¬d.shell.IsDecoration v → ¬Above d.shell.manager.parentOf w v →
        e.shell.manager.rect v = d.shell.manager.rect v) ∧
      (events ≠ [] → e.shell.manager.activeWindow = some w ∧ e.grip.resizing = true) := by
  obtain ⟨n, enough⟩ := acyclic.enough
  refine ⟨n, fun fuel le => ?_⟩
  cases events with
  | nil =>
    have unmoved : grip.stretch (d.shell.manager.rect w) (d.oldCursor - d.oldCursor) =
        d.shell.manager.rect w := by
      rw [Point.sub_eq_zero.mpr rfl, Grip.stretch_zero]
    exact ⟨d, .nil d, unmoved.symm, rfl, fun _ _ _ => rfl, fun some => absurd rfl some⟩
  | cons event rest =>
    have step : (Desk.handle around fuel (.pointer event)).Ensures d _ _ _ :=
      Desk.ensures_handle_resize topmost (resizes event (by simp)) order here
        (fun _ => ⟨picks, pointed⟩)
        (fun going => absurd (begins.symm.trans going) Bool.false_ne_true) taken
        (fun _ => fits event (by simp [PointerEvent.timely]))
    obtain ⟨_, next, act, after⟩ := step.returns (enough fuel le)
    rw [if_neg (by simp [begins])] at after
    have later (other : PointerEvent) (member : other ∈ rest) : other.Resizes :=
      resizes other (by simp [member])
    have room (other : PointerEvent) (member : other ∈ rest) (late : other.soon = false) :
        Fits info (grip.stretch (d.shell.manager.rect w) (other.cursor - d.oldCursor)).size :=
      fits other (by simp [PointerEvent.timely, member, late])
    obtain ⟨e, run, last⟩ := after.steps topmost here (enough fuel le) later room
    refine ⟨e, .cons act run, ?_, ?_, last.stretched.outside, fun _ => ⟨last.active, ?_⟩⟩
    · rw [last.stretched.rect, PointerEvent.timely, List.map_cons, List.getLastD_cons]
    · rw [last.stretched.rect, Grip.opposite_stretch]
    · rw [last.holds]

/-- The bottom right corner comes nearer in three steps, of which the second one comes too soon. -/
def Desk.resizings : List PointerEvent :=
  [⟨1, .motion, { alt := true }, ⟨370, 216⟩, false, true, false⟩,
    ⟨2, .motion, { alt := true }, ⟨1000, 900⟩, false, true, true⟩,
    ⟨3, .motion, { alt := true }, ⟨355, 210⟩, false, true, false⟩]

/-- The window in the middle is taken near its corner, where the one on top does not cover it. -/
theorem resize_gesture_follows_pointer_resizings : ∃ n, ∀ fuel ≥ n, ∃ e,
    Steps (Desk.Points .topmost fuel) Desk.resizings
      { Desk.untouched crowdedState with oldCursor := ⟨375, 220⟩ } e ∧
    e.shell.manager.rect ⟨1, 2⟩ = ⟨⟨282, 146⟩, ⟨80, 70⟩⟩ := by
  obtain ⟨info, here, minWidth, minHeight, maxWidth, maxHeight⟩ :
      ∃ info, crowdedState.info? ⟨1, 2⟩ = some info ∧ info.minWidth = 0 ∧
      info.minHeight = 0 ∧ info.maxWidth = intMax ∧ info.maxHeight = intMax := by
    simpa [Option.any_eq_true] using (by decide +kernel :
      (crowdedState.info? ⟨1, 2⟩).any fun info => info.minWidth = 0 ∧
        info.minHeight = 0 ∧ info.maxWidth = intMax ∧ info.maxHeight = intMax)
  have order := inOrder_crowdedState
  obtain ⟨-, acyclic⟩ := reachable_crowdedState.acyclic_of_linkless.acyclic
  have picks : crowdedState.Picks ⟨1, 2⟩ (some ⟨1, 2⟩) := .of_any (by decide +kernel)
  have pointed : Surroundings.topmost.surfaceAt crowdedState ⟨375, 220⟩ = some ⟨1, 2⟩ := by
    decide +kernel
  have rect : crowdedState.rect ⟨1, 2⟩ = ⟨⟨282, 146⟩, ⟨100, 80⟩⟩ := by decide +kernel
  have resizes : ∀ event ∈ Desk.resizings, event.Resizes := by
    simp only [Desk.resizings, List.forall_mem_cons]
    exact ⟨⟨rfl, rfl, rfl, rfl⟩, ⟨rfl, rfl, rfl, rfl⟩, ⟨rfl, rfl, rfl, rfl⟩, by simp⟩
  revert here picks order acyclic rect pointed
  generalize crowdedState = m
  intro here order acyclic picks pointed rect
  have taken : (Desk.untouched m).grip.take (m.rect ⟨1, 2⟩) ⟨375, 220⟩ =
      ⟨false, false, false⟩ := by
    rw [rect]
    change Grip.take ⟨false, false, false⟩ _ _ = _
    decide
  have fits : ∀ event ∈ PointerEvent.timely Desk.resizings, Fits info
      (Grip.stretch ⟨false, false, false⟩ (m.rect ⟨1, 2⟩)
        (event.cursor - (⟨375, 220⟩ : Point))).size := by
    have allowed (size : Size) (within : 5 ≤ size.width ∧ size.width ≤ intMax ∧
        5 ≤ size.height ∧ size.height ≤ intMax) : Fits info size := by
      refine ⟨⟨?_, ?_, ?_, ?_⟩, within.1, within.2.2.1⟩
      all_goals omega
    have timely : PointerEvent.timely Desk.resizings =
      [⟨1, .motion, { alt := true }, ⟨370, 216⟩, false, true, false⟩,
        ⟨3, .motion, { alt := true }, ⟨355, 210⟩, false, true, false⟩] := rfl
    rw [rect, timely]
    simp only [List.forall_mem_cons]
    exact ⟨allowed _ (by decide), allowed _ (by decide), by simp⟩
  obtain ⟨n, enough⟩ := resize_gesture_follows_pointer
    (d := { Desk.untouched m with oldCursor := ⟨375, 220⟩ }) (fun _ _ => rfl) order acyclic rfl
    here picks pointed taken resizes fits
  refine ⟨n, fun fuel le => ?_⟩
  obtain ⟨e, run, stretched, -⟩ := enough fuel le
  refine ⟨e, run, stretched.trans ?_⟩
  change Grip.stretch ⟨false, false, false⟩ (m.rect ⟨1, 2⟩)
    ((⟨355, 210⟩ : Point) - (⟨375, 220⟩ : Point)) = _
  rw [rect]
  rfl

end Miral
