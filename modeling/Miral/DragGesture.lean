import Miral.DeskRuns
import Miral.Dragging

/-! Dragging with Alt and the primary button: over a whole gesture the tree of the window follows
the pointer, and nothing else moves. -/
namespace Miral

open Program Prog Forest Model TitlebarPolicy

/-- The tree of `w` has been moved along, each of its windows; all else looks as before. -/
structure Model.Towed (w : Window) (movement : Displacement) (s t : Model) : Prop where
  infos : ∀ v, t.info? v = s.info? v
  sight : ∀ v, (t.surface? v).map Surface.sight = (s.surface? v).map Surface.sight
  inside : ∀ v, Above s.parentOf w v → t.topLeft v = s.topLeft v + movement
  outside : ∀ v, ¬Above s.parentOf w v → t.topLeft v = s.topLeft v
  sizes : ∀ v, t.size v = s.size v

namespace Model.Towed

variable {s t u : Model} {w v : Window} {info : WindowInfo} {movement movement' : Displacement}

theorem of_same (infos : ∀ v, t.info? v = s.info? v) (surfaces : ∀ v, t.surface? v = s.surface? v) :
    Towed w ⟨0, 0⟩ s t where
  infos := infos
  sight v := by rw [surfaces]
  inside v _ := by
    rw [topLeft, surfaces, ← topLeft]
    exact Point.ext (by simp) (by simp)
  outside v _ := by rw [topLeft, surfaces, topLeft]
  sizes v := by rw [size, surfaces, size]

theorem parents (towed : Towed w movement s t) : t.parentOf = s.parentOf :=
  funext fun v => by rw [parentOf, towed.infos, parentOf]

theorem trans (first : Towed w movement s t) (second : Towed w movement' t u) :
    Towed w (movement + movement') s u where
  infos v := (second.infos v).trans (first.infos v)
  sight v := (second.sight v).trans (first.sight v)
  inside v above := by
    rw [second.inside v (first.parents ▸ above), first.inside v above]
    exact Point.ext (by simp; omega) (by simp; omega)
  outside v apart := (second.outside v (first.parents ▸ apart)).trans (first.outside v apart)
  sizes v := (second.sizes v).trans (first.sizes v)

theorem isVisible (towed : Towed w movement s t) : t.isVisible v info = s.isVisible v info := by
  have same := towed.sight v
  unfold Model.isVisible
  cases here : s.surface? v <;> cases there : t.surface? v <;>
    simp_all [Surface.sight, Surface.visible]

theorem alike (towed : Towed w movement s t) : Alike s t where
  live v := by
    have same := congrArg Option.isSome (towed.sight v)
    simpa [Live] using same
  parents v := congrFun towed.parents v
  children v := by rw [childrenOf, towed.infos, childrenOf]
  types v := by rw [typeOf, towed.infos, typeOf]
  focusable v := by
    unfold Focusable
    simp only [towed.infos, towed.isVisible]

theorem visible (towed : Towed w movement s t) : t.visible v = s.visible v := by
  have same := towed.sight v
  unfold Model.visible
  cases here : s.surface? v <;> cases there : t.surface? v <;>
    simp_all [Surface.sight, Surface.visible]

theorem synced (towed : Towed w movement s t) (synced : s.Synced) : t.Synced := by
  intro v surface drawn
  have same := towed.sight v
  rw [drawn] at same
  obtain ⟨before, there, eq⟩ := Option.map_eq_some_iff.mp same.symm
  rw [stateOf, towed.infos, ← stateOf, synced v before there]
  exact congrArg some (congrArg Prod.fst eq)

theorem acyclic (towed : Towed w movement s t) (acyclic : s.Acyclic) : t.Acyclic := by
  intro v known
  rw [towed.parents]
  refine acyclic v ?_
  rwa [Managed, towed.infos] at known

theorem seenAt (towed : Towed w movement s t) (above : Above s.parentOf w v) (p : Point) :
    t.seenAt (p + movement) v = s.seenAt p v := by
  rw [Model.seenAt, towed.visible, rect, towed.inside v above, towed.sizes,
    Rectangle.containsPoint_add, Model.seenAt, rect]

/-- What is on top at a point still is where it has been moved to, if its tree has been raised. -/
theorem pointedAt {p : Point} (towed : Towed w movement s t)
    (bloc : EnBloc s.parentOf w s.stacking t.stacking) (pointed : s.pointedAt p = some w) :
    t.pointedAt (p + movement) = some w := by
  obtain ⟨member, seen, top⟩ := (Stacking.highest_eq_some nodup_stacking).mp pointed
  refine (Stacking.highest_eq_some nodup_stacking).mpr
    ⟨bloc.perm.mem_iff.mpr member, (towed.seenAt .refl p).trans seen, fun v below => ?_⟩
  have there : v ∈ s.stacking := bloc.perm.mem_iff.mp below.mem.2
  by_cases above : Above s.parentOf w v
  · rw [towed.seenAt above]
    exact top v ((bloc.within w v .refl above).mp below)
  · -- whatever is not in the subtree is below `w` by now
    have low : Stacking.Below t.stacking v w := by
      by_cases same : SameTree s.parentOf w v
      · exact bloc.subtree v there w member same above .refl
      · exact bloc.tree v there w member same (.refl w)
    exact absurd below (low.asymm nodup_stacking)

end Model.Towed

/-- On top of that, the pointer is still on the window wherever it has been. -/
structure Model.Lifted (w : Window) (movement : Displacement) (s t : Model) : Prop extends
    Towed w movement s t where
  pointed : ∀ p, s.pointedAt p = some w → t.pointedAt (p + movement) = some w

namespace Model.Lifted

variable {s t u : Model} {w : Window} {movement movement' : Displacement}

theorem of_same (infos : ∀ v, t.info? v = s.info? v) (scene : t.scene = s.scene)
    (log : t.log = s.log) : Lifted w ⟨0, 0⟩ s t where
  toTowed := .of_same infos fun v => by rw [surface?, scene, ← surface?]
  pointed p pointed := by
    have place : p + Displacement.mk 0 0 = p := Point.ext (by simp) (by simp)
    have seen : t.seenAt p = s.seenAt p := by
      funext v
      simp only [seenAt, Model.visible, rect, topLeft, size, surface?, scene]
    rw [place, pointedAt, seen, stacking, log]
    exact pointed

theorem trans (first : Lifted w movement s t) (second : Lifted w movement' t u) :
    Lifted w (movement + movement') s u where
  toTowed := first.toTowed.trans second.toTowed
  pointed p pointed := by
    have place : p + (movement + movement') = p + movement + movement' :=
      Point.ext (by simp; omega) (by simp; omega)
    rw [place]
    exact second.pointed _ (first.pointed p pointed)

end Model.Lifted

section Steps

variable {s : Model} {w : Window} {info : WindowInfo} {fuel : Nat}

theorem Model.Told.stacking {t : Model} {movement : Displacement} (told : Told w movement s t) :
    t.stacking = s.stacking := by
  obtain ⟨tree, -, log⟩ := told
  rw [stacking_append log]
  clear log
  generalize s.stacking = z
  induction tree with
  | nil => rfl
  | cons v rest ih => exact ih

/-- What a gesture needs of the windows from one event to the next. -/
structure Model.Tidy (s : Model) : Prop where
  integrity : s.Integrity
  synced : s.Synced

theorem Model.Tidy.towed {t : Model} {movement : Displacement} (tidy : s.Tidy)
    (towed : s.Towed w movement t) (integrity : t.Integrity) : t.Tidy :=
  ⟨integrity, towed.synced tidy.synced⟩

theorem ensures_select_towed (tidy : s.Tidy) (picks : s.Picks w (some w)) :
    (selectActiveWindow fuel (some w)).Ensures s
      (fun r t => r = some w ∧ s.Towed w ⟨0, 0⟩ t ∧ t.Tidy ∧ t.activeWindow = some w)
      (fun _ _ => False) (s.Short fuel) := by
  have focusable : s.Focusable w := picks.focusable w rfl
  refine (ensures_selectActiveWindow tidy.integrity focusable.live).imp ?_
  rintro r t ⟨picks', selected⟩
  obtain rfl := picks.det picks'
  obtain ⟨raised, -, rfl⟩ := selected
  have towed : s.Towed w ⟨0, 0⟩ (s.focusOn w raised) := .of_same (fun _ => rfl) fun _ => rfl
  exact ⟨rfl, towed, tidy.towed towed (tidy.integrity.focusOn focusable.managed),
    activeWindow_focusOn (focusable.visible tidy.synced)⟩

theorem ensures_dragWindow_towed (tidy : s.Tidy) (rooted : Rooted s.parentOf w)
    (here : s.info? w = some info) (active : s.activeWindow = some w) (d : Displacement) :
    (dragWindow fuel (some w) d).Ensures s
      (fun _ t => s.Towed w (info.dragged d) t ∧ t.stacking = s.stacking ∧ t.Tidy ∧
        t.activeWindow = some w)
      (fun _ _ => False) (s.Short fuel) := by
  refine ((ensures_dragWindow tidy.integrity (some w) d).and
    (ensures_dragWindow_shifted tidy.integrity rooted here d)).mono ?_ (fun _ _ h => h.1) And.left
  rintro _ t ⟨⟨root, moved⟩, shifted⟩
  have towed : s.Towed w (info.dragged d) t :=
    ⟨fun v => moved.info? (w := v), (Undisturbed.of_moved moved).sight, shifted.carried,
      fun v apart => by rw [topLeft, shifted.outside v apart, topLeft], shifted.sizes⟩
  refine ⟨towed, ?_, tidy.towed towed (moved.integrity tidy.integrity), ?_⟩
  · by_cases still : info.dragged d = ⟨0, 0⟩
    · rw [shifted.still still]
    · exact (shifted.once still).stacking
  · rw [activeWindow_congr moved.mru fun v _ => towed.visible, active]

namespace TitlebarPolicy

variable {shell : Shell} {around : Surroundings} {oldCursor cursor : Point}

theorem ensures_windowAt_here (here : shell.manager.info? w = some info)
    (pointed : around.surfaceAt shell.manager cursor = some w)
    {post : Option Window → Shell → Prop} {error : Failure → Shell → Prop} {short : Prop}
    (holds : post (some w) shell) :
    (windowAt around cursor).Ensures shell post error short := by
  rw [windowAt, ensures_bind, ensures_state, pointed]
  change Prog.Ensures (do
    let _ ← managing (infoFor w)
    pure (some w) : TitlebarPolicy (Option Window)) shell post error short
  rw [ensures_bind, ensures_managing, ensures_infoFor_here here]
  exact holds

theorem ensures_dragFrom_lifted (tidy : shell.manager.Tidy) (acyclic : shell.manager.Acyclic)
    (here : shell.manager.info? w = some info) (picks : shell.manager.Picks w (some w))
    (pointed : around.surfaceAt shell.manager oldCursor = some w) :
    (dragFrom around fuel oldCursor cursor).Ensures shell
      (fun _ after => shell.manager.Lifted w (info.dragged (cursor - oldCursor)) after.manager ∧
        after.manager.Tidy ∧ after.manager.activeWindow = some w)
      (fun _ _ => False) (shell.manager.Short fuel) := by
  have rooted : Rooted shell.manager.parentOf w := acyclic w (managed_iff.mpr ⟨info, here⟩)
  rw [dragFrom, ensures_bind]
  apply ensures_windowAt_here here pointed
  dsimp only
  rw [ensures_bind, ensures_managing]
  refine ((ensures_select_towed tidy picks).and
    (ensures_select_raised tidy.integrity acyclic picks)).mono ?_ (fun _ _ h => h.1) And.left
  rintro r selected ⟨⟨rfl, chosen, tidy', active⟩, groups, ascent, known⟩
  have bloc : EnBloc shell.manager.parentOf w shell.manager.stacking selected.stacking := by
    rw [known, stacking_focusOn]
    exact ascent.enBloc _
  rw [ensures_onlyIf]
  refine ⟨fun _ => ?_, fun other => absurd rfl other⟩
  rw [dragActiveWindow, ensures_bind, ensures_state, ensures_managing]
  change (dragWindow fuel selected.activeWindow _).Ensures selected _ _ _
  rw [active]
  refine (ensures_dragWindow_towed tidy' (chosen.parents ▸ rooted) ((chosen.infos w).trans here)
    active (cursor - oldCursor)).mono ?_ (fun _ _ h => h) (Short.congr (congrFun chosen.parents))
  rintro _ t ⟨moved, stacked, rest⟩
  have whole := chosen.trans moved
  rw [Displacement.zero_add] at whole
  exact ⟨⟨whole, fun p => whole.pointedAt (stacked ▸ bloc)⟩, rest⟩

end TitlebarPolicy

structure PointerEvent.Drags (event : PointerEvent) : Prop where
  action : event.action = .motion
  modifiers : event.modifiers = { alt := true }
  primary : event.primary = true
  tertiary : event.tertiary = false

/-- Where a gesture has come to that started on `w`. -/
structure Desk.Grabbed (w : Window) (movement : Displacement) (d e : Desk) : Prop where
  lifted : d.shell.manager.Lifted w movement e.shell.manager
  tidy : e.shell.manager.Tidy
  still : e.grip.resizing = false

/-- What the manager does of its own before the policy learns of a motion. -/
def Desk.noticed (d : Desk) (cursor : Point) : Desk :=
  { d with shell := d.shell.setManager { d.shell.manager.swept with cursor } }

theorem Desk.ensures_handle_motion {around : Surroundings} {d : Desk} {event : PointerEvent}
    (motion : event.action = .motion) {post : Unit → Desk → Prop} {error : Failure → Desk → Prop}
    {short : Prop}
    (handled : (handlePointerEvent around fuel event).Ensures (d.noticed event.cursor)
      (fun _ => post ()) error short) :
    (handle around fuel (.pointer event)).Ensures d post error short := by
  rw [handle, ensures_bind, onShell, ensures_zoom, ensures_managing, locker, ensures_update,
    ensures_bind, onShell, ensures_zoom, updateEventTimestamp, ensures_onlyIf]
  refine ⟨fun counts => by simp [motion] at counts, fun _ => ?_⟩
  rw [ensures_bind, onShell, ensures_zoom, ensures_managing, ensures_update, ensures_bind]
  exact handled

theorem Desk.noticed_lifted {d : Desk} (cursor : Point) :
    d.shell.manager.Lifted w ⟨0, 0⟩ (d.noticed cursor).shell.manager :=
  .of_same (fun _ => rfl) rfl rfl

theorem Desk.ensures_handle_drag {around : Surroundings} {d : Desk} {event : PointerEvent}
    (topmost : around.Topmost) (drags : event.Drags) (tidy : d.shell.manager.Tidy)
    (still : d.grip.resizing = false) (acyclic : d.shell.manager.Acyclic)
    (here : d.shell.manager.info? w = some info) (picks : d.shell.manager.Picks w (some w))
    (pointed : d.shell.manager.pointedAt d.oldCursor = some w) :
    (handle around fuel (.pointer event)).Ensures d
      (fun _ e => Grabbed w (info.dragged (event.cursor - d.oldCursor)) d e ∧
        e.shell.manager.activeWindow = some w ∧ e.oldCursor = event.cursor)
      (fun _ _ => False) (d.shell.manager.Short fuel) := by
  refine ensures_handle_motion drags.action ?_
  have same : d.shell.manager.Lifted w ⟨0, 0⟩ (d.noticed event.cursor).shell.manager :=
    noticed_lifted event.cursor
  have integrity : (d.noticed event.cursor).shell.manager.Integrity :=
    tidy.integrity.swept.sameStructure (.of_frame rfl) tidy.integrity.swept.mru
  have tidy' := tidy.towed same.toTowed integrity
  have pointed' : around.surfaceAt (d.noticed event.cursor).shell.manager d.oldCursor = some w :=
    (topmost _ _).trans pointed
  rw [handlePointerEvent, ensures_bind, ensures_state, ensures_bind, gesture, ensures_bind,
    ensures_state]
  rw [if_neg (by simp [drags.action]), if_pos ⟨drags.action, drags.modifiers⟩, ensures_bind,
    ensures_onlyIf]
  refine ⟨fun _ => ?_, fun none => absurd drags.primary none⟩
  rw [onShell, ensures_zoom]
  have dragging : (dragFrom around fuel d.oldCursor event.cursor).Ensures
      (d.noticed event.cursor).shell _ _ _ :=
    ensures_dragFrom_lifted tidy' (same.acyclic acyclic) ((same.infos w).trans here)
      (same.alike.picks picks) pointed'
  refine dragging.mono ?_ (fun _ _ h => h) (Short.congr (congrFun same.parents))
  rintro _ after ⟨moved, tidy'', active⟩
  have whole := same.trans moved
  rw [Displacement.zero_add] at whole
  rw [if_neg (by simp [drags.tertiary]), ensures_pure]
  dsimp only
  rw [drags.primary]
  rw [if_neg fun unconsumed => unconsumed.1 rfl, ensures_bind, ensures_pure, ensures_bind,
    ensures_onlyIf]
  refine ⟨fun resizing => absurd (still.symm.trans resizing.1) Bool.false_ne_true, fun _ => ?_⟩
  rw [ensures_bind, ensures_update, ensures_pure]
  exact ⟨⟨whole, tidy'', rfl⟩, active, rfl⟩

theorem WindowInfo.dragged_add (info : WindowInfo) (a b : Displacement) :
    info.dragged a + info.dragged b = info.dragged (a + b) := by
  unfold WindowInfo.dragged
  split
  · split
    · rfl
    · exact Displacement.ext rfl (Int.add_zero 0)
    · exact Displacement.ext (Int.add_zero 0) rfl
    · rfl
  · rfl

def Desk.Points (around : Surroundings) (fuel : Nat) (event : PointerEvent) (d e : Desk) : Prop :=
  handle around fuel (.pointer event) d = .returned () e

/-- A gesture goes on from where it has come to. -/
theorem Desk.Grabbed.steps {around : Surroundings} {d c : Desk} (topmost : around.Topmost)
    (acyclic : d.shell.manager.Acyclic) (here : d.shell.manager.info? w = some info)
    (picks : d.shell.manager.Picks w (some w)) (enough : ¬d.shell.manager.Short fuel)
    {events : List PointerEvent} (drags : ∀ event ∈ events, event.Drags)
    (pointed : ∀ cursor ∈ (c.oldCursor :: events.map PointerEvent.cursor).dropLast, ∀ p,
      p + info.dragged (cursor - d.oldCursor) = cursor → d.shell.manager.pointedAt p = some w)
    (grabbed : Grabbed w (info.dragged (c.oldCursor - d.oldCursor)) d c) :
    ∃ e, Steps (Points around fuel) events c e ∧
      Grabbed w (info.dragged (e.oldCursor - d.oldCursor)) d e ∧
      e.oldCursor = (events.map PointerEvent.cursor).getLastD c.oldCursor ∧
      (events ≠ [] → e.shell.manager.activeWindow = some w) := by
  induction events generalizing c with
  | nil => exact ⟨c, .nil c, grabbed, rfl, fun some => absurd rfl some⟩
  | cons event rest ih =>
    have lifted := grabbed.lifted
    have here' := (lifted.infos w).trans here
    -- the point of the start that has come to where the pointer is
    obtain ⟨p, reached⟩ : ∃ p : Point,
        p + info.dragged (c.oldCursor - d.oldCursor) = c.oldCursor := by
      refine ⟨⟨c.oldCursor.x - (info.dragged (c.oldCursor - d.oldCursor)).dx,
        c.oldCursor.y - (info.dragged (c.oldCursor - d.oldCursor)).dy⟩, ?_⟩
      exact Point.ext (by simp) (by simp)
    have pointed' : c.shell.manager.pointedAt c.oldCursor = some w := by
      have still := lifted.pointed p (pointed c.oldCursor (by simp) p reached)
      rwa [reached] at still
    obtain ⟨_, next, act, further, active, cursor⟩ :=
      (ensures_handle_drag topmost (drags event (by simp)) grabbed.tidy grabbed.still
        (lifted.acyclic acyclic) here' (lifted.alike.picks picks) pointed').returns fun short =>
          enough (Short.congr (congrFun lifted.parents) short)
    have whole := lifted.trans further.lifted
    rw [WindowInfo.dragged_add, Point.sub_add_sub, ← cursor] at whole
    have onwards : ∀ p ∈ (next.oldCursor :: rest.map PointerEvent.cursor).dropLast,
        p ∈ (c.oldCursor :: (event :: rest).map PointerEvent.cursor).dropLast := by
      intro p member
      rw [List.map_cons, List.dropLast_cons_cons, ← cursor]
      exact List.mem_cons_of_mem _ member
    obtain ⟨e, run, grabbed', last, rest_active⟩ :=
      ih (fun other member => drags other (by simp [member]))
        (fun p member => pointed p (onwards p member)) ⟨whole, further.tidy, further.still⟩
    refine ⟨e, .cons act run, grabbed', ?_, fun _ => ?_⟩
    · rw [last, cursor, List.map_cons, List.getLastD_cons]
    · by_cases none : rest = []
      · subst none
        cases run
        exact active
      · exact rest_active none

end Steps

end Miral
