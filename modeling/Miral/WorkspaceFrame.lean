import Miral.Library.Roster
import Miral.Manager

/-! What has nothing to do with workspaces: everything but the creation of children, closing
and the three operations on workspaces leaves the relation alone and reports nothing of it. -/
namespace Miral

open Program Prog Roster

def Event.grouping : Event → Option (Change Workspace Window)
  | .adviseAddingToWorkspace workspace windows => some (.join workspace windows)
  | .adviseRemovingFromWorkspace workspace windows => some (.leave workspace windows)
  | _ => none

/-- The calls of `advise_adding_to_workspace` and `advise_removing_from_workspace`. -/
def Model.reports (s : Model) : List (Change Workspace Window) := s.log.filterMap Event.grouping

/-- The relation of workspaces and windows is that of `s`, and so is what has been said of it. -/
structure SameGrouping (s t : Model) : Prop where
  pairs : t.workspacesToWindows = s.workspacesToWindows
  living : t.liveWorkspaces = s.liveWorkspaces
  dead : t.deadWorkspaces = s.deadWorkspaces
  reports : t.reports = s.reports

instance : IsPreorder Model SameGrouping where
  refl _ := ⟨rfl, rfl, rfl, rfl⟩
  trans _ _ _ h h' := ⟨h'.pairs.trans h.pairs, h'.living.trans h.living, h'.dead.trans h.dead,
    h'.reports.trans h.reports⟩

variable {fuel : Nat} {w : Window}

theorem sameGrouping_emit {s : Model} {event : Event} (silent : event.grouping = none) :
    SameGrouping s (s.emit event) :=
  ⟨rfl, rfl, rfl, by simp [Model.reports, Model.emit, silent]⟩

theorem sameGrouping_configure {s : Model} (f : Surface → Surface) :
    SameGrouping s (s.configure w f) := by
  rw [Model.configure_eq]
  exact ⟨rfl, rfl, rfl, rfl⟩

section Reads

variable {R : Model → Model → Prop} [IsPreorder Model R]

theorem keeps_infoFor : (infoFor w).Keeps R := by
  refine .bind .state fun s => ?_
  split
  · exact .pure _
  · exact .fail _

theorem keeps_infoForWeak (weak : WeakSurface) : (infoForWeak weak).Keeps R := by
  cases weak with
  | some w => exact .bind keeps_infoFor fun _ => .pure _
  | none => exact .fail _

theorem keeps_infoForSession {a : Application} : (infoForSession a).Keeps R := by
  refine .bind .state fun s => ?_
  split
  · exact .pure _
  · exact .fail _

theorem keeps_descendants (fuel : Nat) (w : Window) :
    (descendants fuel w).Keeps R := by
  induction fuel generalizing w with
  | zero => exact .exhaust
  | succ fuel ih =>
    exact .bind keeps_infoFor fun info =>
      .collect (fun child => .bind (ih child) fun _ => .pure _) info.children

theorem keeps_raising (advises : ∀ s windows, R s (s.emit (.adviseRaise windows)))
    (raises : ∀ s windows, R s (s.emit (.raise windows))) (fuel : Nat) (w : Window) :
    (raiseTree fuel w).Keeps R := by
  induction fuel generalizing w with
  | zero => exact .exhaust
  | succ fuel ih =>
    refine .bind keeps_infoFor fun info => .bind .state fun s => .bind (.whenSome ih) fun _ => ?_
    refine .bind (keeps_descendants fuel w) fun below => .bind ?_ fun _ => ?_
    · exact .update fun s => advises s _
    · exact .update fun s => raises s _

end Reads

theorem keeps_setInfo {info : WindowInfo} : (setInfo w info).Keeps SameGrouping :=
  .update fun _ => ⟨rfl, rfl, rfl, rfl⟩

theorem keeps_modifyInfo {f : WindowInfo → WindowInfo} : (modifyInfo w f).Keeps SameGrouping :=
  .bind keeps_infoFor fun _ => keeps_setInfo

theorem keeps_modifySession {a : Application} {f : ApplicationInfo → ApplicationInfo} :
    (modifySession a f).Keeps SameGrouping :=
  .bind keeps_infoForSession fun _ => .update fun _ => ⟨rfl, rfl, rfl, rfl⟩

theorem keeps_configure {f : Surface → Surface} : (configure w f).Keeps SameGrouping :=
  .update fun _ => sameGrouping_configure f

theorem keeps_emit {event : Event} (silent : event.grouping = none) :
    (emit event).Keeps SameGrouping :=
  .update fun _ => sameGrouping_emit silent

section Focus

theorem keeps_setFocusTo {session : Option Application} {surface : Option Window} :
    (setFocusTo session surface).Keeps SameGrouping :=
  .update fun _ => ⟨rfl, rfl, rfl, by simp [Model.reports, Model.emit, Event.grouping]⟩

theorem keeps_raiseTree (fuel : Nat) (w : Window) : (raiseTree fuel w).Keeps SameGrouping :=
  keeps_raising (fun _ _ => sameGrouping_emit rfl) (fun _ _ => sameGrouping_emit rfl) fuel w

theorem keeps_adviseFocusLost : (adviseFocusLost w).Keeps SameGrouping :=
  .bind keeps_infoFor fun _ => keeps_emit rfl

theorem keeps_visibleDialog (children : List Window) :
    (visibleDialog children).Keeps SameGrouping := by
  induction children with
  | nil => exact .pure none
  | cons child rest ih =>
    exact .bind keeps_infoFor fun _ => .bind .state fun _ => .ite (.pure _) ih

theorem keeps_selectActiveWindow (fuel : Nat) (hint : Option Window) :
    (selectActiveWindow fuel hint).Keeps SameGrouping := by
  induction fuel generalizing hint with
  | zero => exact .exhaust
  | succ fuel ih =>
    refine .bind .state fun s => ?_
    dsimp only
    split
    · exact .bind (.whenSome fun _ => .bind keeps_setFocusTo fun _ => keeps_adviseFocusLost)
        fun _ => .pure _
    · refine .bind keeps_infoFor fun info => .bind (keeps_visibleDialog _) fun dialog => ?_
      split
      · exact ih _
      · refine .ite ?_ ?_
        · refine .bind (.update fun _ => ⟨rfl, rfl, rfl, rfl⟩) fun _ =>
            .bind keeps_setFocusTo fun _ => .bind ?_ fun _ => .bind ?_ fun _ => .pure _
          · exact .whenSome fun _ => .onlyIf keeps_adviseFocusLost
          · exact .bind (keeps_emit rfl) fun _ => keeps_raiseTree fuel _
        · split
          · exact ih _
          · exact .pure none

theorem keeps_trySelect (w : Window) : (trySelect fuel w).Keeps SameGrouping :=
  .bind (keeps_selectActiveWindow fuel _) fun _ => .bind .state fun _ => .pure _

theorem keeps_enumerate {enumerator : Window → Manager (Option Window)}
    (each : ∀ w, (enumerator w).Keeps SameGrouping) (i : Nat) :
    (enumerate enumerator i).Keeps SameGrouping := by
  induction i with
  | zero => exact .pure none
  | succ i ih =>
    refine .bind .state fun s => ?_
    split
    · refine .ite (.bind (each _) fun found => ?_) ih
      cases found with
      | some _ => exact .pure _
      | none => exact ih
    · exact ih

theorem keeps_enumerateIf (admits : Model → Window → Bool) :
    (enumerateIf fuel admits).Keeps SameGrouping :=
  .bind .state fun s => keeps_enumerate
    (fun w => .bind .state fun _ => .ite (keeps_trySelect w) (.pure none)) s.mruActiveWindows.length

theorem keeps_focusNextSession : focusNextSession.Keeps SameGrouping :=
  .update fun _ => ⟨rfl, rfl, rfl, by simp [Model.reports, Model.emit, Event.grouping]⟩

theorem keeps_focusNextInWorkspace (prev : Window) (workspaces : List Workspace) (fuel : Nat) :
    (focusNextInWorkspace prev workspaces fuel).Keeps SameGrouping := by
  induction fuel with
  | zero => exact .exhaust
  | succ fuel ih =>
    refine .bind keeps_focusNextSession fun _ => .bind .state fun s =>
      .bind (keeps_enumerateIf _) fun found => ?_
    cases found with
    | some _ => exact .pure true
    | none => exact .bind .state fun _ => .ite ih (.pure false)

theorem keeps_focusNextAnywhere : (focusNextAnywhere fuel).Keeps SameGrouping := by
  refine .bind keeps_focusNextSession fun _ => .bind .state fun s =>
    .bind (keeps_enumerateIf _) fun found => ?_
  cases found with
  | some _ => exact .pure ()
  | none =>
    refine .bind .state fun s => ?_
    split
    · exact .bind keeps_infoFor fun _ => .bind (keeps_selectActiveWindow fuel _) fun _ => .pure ()
    · exact .bind (keeps_selectActiveWindow fuel none) fun _ => .pure ()

theorem keeps_focusNextApplication : (focusNextApplication fuel).Keeps SameGrouping := by
  refine .bind .state fun s => ?_
  split
  · exact .ite (.bind (keeps_focusNextInWorkspace _ _ fuel) fun _ =>
      .ite (.pure ()) keeps_focusNextAnywhere) keeps_focusNextAnywhere
  · exact keeps_focusNextAnywhere

theorem keeps_selectForEach (prev current : Window) (workspaces : List Workspace) :
    (selectForEach fuel prev current workspaces).Keeps SameGrouping := by
  induction workspaces with
  | nil => exact .pure false
  | cons _ rest ih =>
    exact .bind (keeps_selectActiveWindow fuel _) fun _ => .ite (.pure true) ih

theorem keeps_selectSiblingInWorkspace (prev : Window) (workspaces : List Workspace)
    (siblings : List Window) :
    (selectSiblingInWorkspace fuel prev workspaces siblings).Keeps SameGrouping := by
  induction siblings with
  | nil => exact .pure false
  | cons current rest ih =>
    exact .bind .state fun _ => .bind (keeps_selectForEach _ _ _) fun _ => .ite (.pure true) ih

theorem keeps_selectSibling (prev : Window) (siblings : List Window) :
    (selectSibling fuel prev siblings).Keeps SameGrouping := by
  induction siblings with
  | nil => exact .pure false
  | cons current rest ih =>
    exact .bind (keeps_selectActiveWindow fuel _) fun _ => .ite (.pure true) ih

theorem keeps_focusSibling (order : List Window → List Window) :
    (focusSibling fuel order).Keeps SameGrouping := by
  refine .bind .state fun s => ?_
  split
  · refine .bind keeps_infoForSession fun _ => .bind (keeps_selectSiblingInWorkspace _ _ _) fun _ =>
      .ite (.pure ()) (.bind (keeps_selectSiblingInWorkspace _ _ _) fun _ => .ite (.pure ()) ?_)
    exact .bind (keeps_selectSibling _ _) fun _ => .ite (.pure ())
      (.bind (keeps_selectSibling _ _) fun _ => .pure ())
  · exact .pure ()

theorem keeps_refocus (application : Application) (parent : Option Window)
    (workspaces : List Workspace) :
    (refocus fuel application parent workspaces).Keeps SameGrouping := by
  refine .bind .state fun s => .bind (.orElse ?_ (.orElse (keeps_enumerateIf _)
    (.orElse (keeps_enumerateIf _) (.orElse (keeps_enumerateIf _) (keeps_enumerateIf _))))) fun _ =>
    .onlyIf keeps_focusNextApplication
  cases s.lock parent with
  | some w => exact keeps_trySelect w
  | none => exact .pure none

end Focus

section Modify

theorem keeps_moveTree (fuel : Nat) (w : Window) (movement : Displacement) :
    (moveTree fuel w movement).Keeps SameGrouping := by
  induction fuel generalizing w movement with
  | zero => exact .exhaust
  | succ fuel ih =>
    refine .ite (.pure ()) (.bind keeps_infoFor fun info => .bind .state fun s =>
      .bind (keeps_emit rfl) fun _ => .bind keeps_configure fun _ => .forEach (fun child => ?_) _)
    exact .bind keeps_infoFor fun _ => .bind .state fun s => ih child _

theorem keeps_placeAndSize (w : Window) (newPos : Point) (newSize : Size) :
    (placeAndSize fuel w newPos newSize).Keeps SameGrouping :=
  .bind .state fun _ => .bind (.onlyIf (.bind (keeps_emit rfl) fun _ => keeps_configure)) fun _ =>
    .bind .state fun _ => keeps_moveTree fuel w _

theorem keeps_moveFocusFrom (w : Window) : (moveFocusFrom fuel w).Keeps SameGrouping := by
  refine .bind (keeps_selectActiveWindow fuel _) fun _ => .bind .state fun _ => .bind (.onlyIf ?_)
    fun _ => .bind .state fun _ => .bind (.onlyIf ?_) fun _ => .bind .state fun _ => .onlyIf ?_
  · exact .bind (keeps_enumerateIf _) fun _ => .pure ()
  · exact .bind (keeps_enumerateIf _) fun _ => .pure ()
  · exact .bind (keeps_selectActiveWindow fuel none) fun _ => .pure ()

theorem keeps_setState (w : Window) (value : WindowState) :
    (setState fuel w value).Keeps SameGrouping := by
  refine .bind keeps_infoFor fun info => .bind (.update fun s => ?_) fun _ => .onlyIf
    (.bind (keeps_emit rfl) fun _ => .ite ?_ ?_)
  · split <;> exact ⟨rfl, rfl, rfl, rfl⟩
  · exact .bind keeps_setInfo fun _ => .bind .state fun _ =>
      .bind (.onlyIf (keeps_moveFocusFrom w)) fun _ => .bind keeps_configure fun _ => keeps_configure
  · exact .bind .state fun _ => .bind keeps_setInfo fun _ => .bind keeps_configure fun _ =>
      .bind keeps_configure fun _ =>
        .onlyIf (.bind (keeps_selectActiveWindow fuel _) fun _ => .pure ())

theorem keeps_requestedInfo (w : Window) (modifications : WindowSpecification) :
    (requestedInfo w modifications).Keeps SameGrouping := by
  refine .bind keeps_infoFor fun info => .bind ?_ fun _ => .bind .state fun _ => .ofExcept _
  cases modifications.parent with
  | some weak => exact .bind (keeps_infoForWeak weak) fun _ => .pure _
  | none => exact .pure _

theorem keeps_swapInfo (w : Window) (tmp : WindowInfo) : (swapInfo w tmp).Keeps SameGrouping :=
  .bind keeps_infoFor fun _ => .bind keeps_setInfo fun _ => .bind (.onlyIf keeps_configure) fun _ =>
    .onlyIf (.bind .state fun _ => .bind (.whenSome fun _ => keeps_modifyInfo) fun _ =>
      .whenSome fun _ => keeps_modifyInfo)

theorem keeps_updateGeometry (w : Window) (modifications : WindowSpecification) :
    (updateGeometry fuel w modifications).Keeps SameGrouping := by
  refine .bind keeps_infoFor fun info => .bind .state fun s => ?_
  dsimp only
  split
  · exact keeps_placeAndSize _ _ _
  · exact .ite (.bind (.ofExcept _) fun _ => keeps_placeAndSize _ _ _)
      (.onlyIf (keeps_placeAndSize _ _ _))

theorem keeps_updatePlacement (w : Window) (modifications : WindowSpecification) :
    (updatePlacement fuel w modifications).Keeps SameGrouping :=
  .onlyIf (.bind keeps_infoFor fun _ => .bind .state fun _ => .whenSome fun _ =>
    .bind (.ofExcept _) fun _ => .bind (keeps_placeAndSize _ _ _) fun _ =>
      .bind .state fun _ => keeps_emit rfl)

theorem keeps_modifyWindow (w : Window) (modifications : WindowSpecification) :
    (modifyWindow fuel w modifications).Keeps SameGrouping := by
  refine .bind (keeps_requestedInfo w modifications) fun tmp => .bind (keeps_swapInfo w tmp) fun _ =>
    .bind ?_ fun _ => .bind ?_ fun _ => .bind (keeps_updateGeometry w modifications) fun _ =>
      .bind (keeps_updatePlacement w modifications) fun _ =>
        .bind (.whenSome (keeps_setState w)) fun _ => .whenSome fun _ => keeps_configure
  · exact .bind (.whenSome fun _ => keeps_configure) fun _ => .whenSome fun _ => keeps_configure
  · exact .whenSome fun _ => .bind keeps_infoFor fun _ => .bind .state fun _ =>
      .onlyIf keeps_setInfo

theorem keeps_handleRequest (w : Window) (modifications : WindowSpecification) :
    (handleRequest fuel w modifications).Keeps SameGrouping :=
  .bind keeps_infoFor fun _ => .bind .state fun _ => .bind (.ofExcept _) fun _ =>
    .bind keeps_infoFor fun _ => .bind .state fun _ => keeps_modifyWindow _ _

theorem keeps_placeFullscreen (order : List Window) :
    (placeFullscreen fuel order).Keeps SameGrouping :=
  .forEach (fun _ => .bind .state fun _ => .onlyIf (.bind keeps_infoFor fun _ =>
    keeps_placeAndSize _ _ _)) order

theorem keeps_dragWindow (window : Option Window) (movement : Displacement) :
    (dragWindow fuel window movement).Keeps SameGrouping := by
  refine .bind .state fun _ => .whenSome fun w => .bind keeps_infoFor fun info => .onlyIf ?_
  split
  · exact keeps_moveTree fuel w _
  · exact keeps_moveTree fuel w _
  · exact keeps_moveTree fuel w _
  · exact .pure ()

end Modify

end Miral
