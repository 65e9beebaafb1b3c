import Miral.TitlebarPolicy

/-! The set of fullscreen windows is written by `set_state` and read by nothing that moves the
focus or changes a window: all of it runs on another set as it does on this one. -/
namespace Miral

open Program Prog

def Model.withFullscreen (F : List Window → List Window) (s : Model) : Model :=
  { s with fullscreenSurfaces := F s.fullscreenSurfaces }

variable {F : List Window → List Window} {fuel : Nat} {w : Window}

theorem commutes_infoFor : (infoFor w).Commutes (Model.withFullscreen F) := by
  refine .read (fun _ => rfl) fun s => ?_
  split
  · exact .pure _
  · exact .fail _

theorem commutes_setInfo {info : WindowInfo} : (setInfo w info).Commutes (Model.withFullscreen F) :=
  .update fun _ => rfl

theorem commutes_modifyInfo {f : WindowInfo → WindowInfo} :
    (modifyInfo w f).Commutes (Model.withFullscreen F) :=
  .bind commutes_infoFor fun _ => commutes_setInfo

theorem commutes_emit {event : Event} : (emit event).Commutes (Model.withFullscreen F) :=
  .update fun _ => rfl

theorem configure_withFullscreen {s : Model} {f : Surface → Surface} :
    (s.withFullscreen F).configure w f = (s.configure w f).withFullscreen F := by
  have same : (s.withFullscreen F).surface? w = s.surface? w := rfl
  unfold Model.configure
  rw [same]
  split <;> rfl

theorem commutes_configure {f : Surface → Surface} :
    (configure w f).Commutes (Model.withFullscreen F) :=
  .update fun _ => configure_withFullscreen

section Focus

theorem commutes_setFocusTo {session : Option Application} {surface : Option Window} :
    (setFocusTo session surface).Commutes (Model.withFullscreen F) :=
  .update fun _ => rfl

theorem commutes_descendants (fuel : Nat) (w : Window) :
    (descendants fuel w).Commutes (Model.withFullscreen F) := by
  induction fuel generalizing w with
  | zero => exact .exhaust
  | succ fuel ih =>
    exact .bind commutes_infoFor fun info =>
      .collect (fun child => .bind (ih child) fun _ => .pure _) info.children

theorem commutes_raiseTree (fuel : Nat) (w : Window) :
    (raiseTree fuel w).Commutes (Model.withFullscreen F) := by
  induction fuel generalizing w with
  | zero => exact .exhaust
  | succ fuel ih =>
    refine .bind commutes_infoFor fun info => .read (fun _ => rfl) fun s =>
      .bind (.whenSome ih) fun _ => ?_
    exact .bind (commutes_descendants fuel w) fun _ => .bind commutes_emit fun _ => commutes_emit

theorem commutes_adviseFocusLost : (adviseFocusLost w).Commutes (Model.withFullscreen F) :=
  .bind commutes_infoFor fun _ => commutes_emit

theorem commutes_visibleDialog (children : List Window) :
    (visibleDialog children).Commutes (Model.withFullscreen F) := by
  induction children with
  | nil => exact .pure none
  | cons child rest ih =>
    exact .bind commutes_infoFor fun _ => .read (fun _ => rfl) fun _ => .ite (.pure _) ih

theorem commutes_selectActiveWindow (fuel : Nat) (hint : Option Window) :
    (selectActiveWindow fuel hint).Commutes (Model.withFullscreen F) := by
  induction fuel generalizing hint with
  | zero => exact .exhaust
  | succ fuel ih =>
    refine .read (fun _ => rfl) fun s => ?_
    dsimp only
    split
    · exact .bind (.whenSome fun _ => .bind commutes_setFocusTo fun _ => commutes_adviseFocusLost)
        fun _ => .pure _
    · refine .bind commutes_infoFor fun info => .bind (commutes_visibleDialog _) fun dialog => ?_
      split
      · exact ih _
      · refine .ite ?_ ?_
        · refine .bind (.update fun _ => rfl) fun _ =>
            .bind commutes_setFocusTo fun _ => .bind ?_ fun _ => .bind ?_ fun _ => .pure _
          · exact .whenSome fun _ => .onlyIf commutes_adviseFocusLost
          · exact .bind commutes_emit fun _ => commutes_raiseTree fuel _
        · split
          · exact ih _
          · exact .pure none

theorem commutes_trySelect (w : Window) : (trySelect fuel w).Commutes (Model.withFullscreen F) :=
  .bind (commutes_selectActiveWindow fuel _) fun _ => .read (fun _ => rfl) fun _ => .pure _

theorem commutes_enumerate {enumerator : Window → Manager (Option Window)}
    (each : ∀ w, (enumerator w).Commutes (Model.withFullscreen F)) (i : Nat) :
    (enumerate enumerator i).Commutes (Model.withFullscreen F) := by
  induction i with
  | zero => exact .pure none
  | succ i ih =>
    refine .read (fun _ => rfl) fun s => ?_
    split
    · refine .ite (.bind (each _) fun found => ?_) ih
      split
      · exact .pure _
      · exact ih
    · exact ih

theorem commutes_enumerateIf {admits : Model → Window → Bool}
    (same : ∀ s, admits (s.withFullscreen F) = admits s) :
    (enumerateIf fuel admits).Commutes (Model.withFullscreen F) := by
  refine .read (fun _ => rfl) fun s => commutes_enumerate (fun w => ?_) _
  refine .read (fun s => ?_) fun s => .ite (commutes_trySelect w) (.pure none)
  rw [same]

theorem commutes_moveFocusFrom (w : Window) :
    (moveFocusFrom fuel w).Commutes (Model.withFullscreen F) := by
  refine .bind (commutes_selectActiveWindow fuel _) fun _ => .read (fun _ => rfl) fun s =>
    .bind (.onlyIf ?_) fun _ => .read (fun _ => rfl) fun s => .bind (.onlyIf ?_) fun _ =>
      .read (fun _ => rfl) fun s => .onlyIf ?_
  · exact .bind (commutes_enumerateIf fun _ => rfl) fun _ => .pure ()
  · exact .bind (commutes_enumerateIf fun _ => rfl) fun _ => .pure ()
  · exact .bind (commutes_selectActiveWindow fuel _) fun _ => .pure ()

end Focus

theorem commutes_finishState {previous value : WindowState} :
    (finishState fuel w previous value).Commutes (Model.withFullscreen F) := by
  refine .ite ?_ ?_
  · refine .bind commutes_modifyInfo fun _ => .read (fun _ => rfl) fun s => .bind (.onlyIf ?_)
      fun _ => .bind commutes_configure fun _ => commutes_configure
    exact commutes_moveFocusFrom w
  · refine .read (fun _ => rfl) fun s => .bind commutes_modifyInfo fun _ =>
      .bind commutes_configure fun _ => .bind commutes_configure fun _ => .onlyIf ?_
    exact .bind (commutes_selectActiveWindow fuel _) fun _ => .pure ()

end Miral
