import Miral.RequestGeometry
import Miral.WorkspaceFrame
import Miral.Arrival

/-! What the record and the surface of a new window keep of its specification while `add_surface`
goes on to file it. -/
namespace Miral

open Program Prog Model

/-- The surfaces, the outputs, and what the records say of outputs and states are the same. -/
structure Filed (s t : Model) : Prop where
  scene : t.scene = s.scene
  displayLayout : t.displayLayout = s.displayLayout
  records : ∀ v, (t.info? v).map (fun info => (info.outputId, info.state)) =
    (s.info? v).map fun info => (info.outputId, info.state)

instance : IsPreorder Model Filed where
  refl _ := ⟨rfl, rfl, fun _ => rfl⟩
  trans _ _ _ h h' := ⟨h'.scene.trans h.scene, h'.displayLayout.trans h.displayLayout,
    fun v => (h'.records v).trans (h.records v)⟩

namespace Filed

variable {s t : Model} {fuel : Nat} {w v : Window}

theorem rect (filed : Filed s t) : t.rect w = s.rect w := by
  simp only [Model.rect, topLeft, size, surface?, filed.scene]

theorem emit {event : Event} : (Miral.emit event).Keeps Filed :=
  .update fun _ => ⟨rfl, rfl, fun _ => rfl⟩

theorem modifyInfo {f : WindowInfo → WindowInfo}
    (same : ∀ info, ((f info).outputId, (f info).state) = (info.outputId, info.state)) :
    (modifyInfo w f).Keeps Filed := by
  intro s
  rw [Miral.modifyInfo, ensures_bind, ensures_infoFor]
  refine ⟨fun info here => ⟨rfl, rfl, fun v => ?_⟩, fun _ => refl_of Filed s⟩
  rw [info?_setInfo]
  by_cases eq : v = w
  · rw [if_pos eq, eq, here, Option.map_some, Option.map_some, same]
  · rw [if_neg eq]

theorem modifySession {a : Application} {f : ApplicationInfo → ApplicationInfo} :
    (modifySession a f).Keeps Filed :=
  .bind keeps_infoForSession fun _ => .update fun _ => ⟨rfl, rfl, fun _ => rfl⟩

theorem adopt {parent : Option Window} : (adopt w parent).Keeps Filed := by
  refine .bind .state fun s => .bind (.whenSome fun parent => .bind keeps_infoFor fun _ => ?_)
    fun _ => .bind modifySession fun _ => .bind keeps_infoFor fun info => .bind .state fun s => ?_
  · exact modifyInfo fun _ => rfl
  · exact .whenSome fun parent => modifyInfo fun _ => rfl

theorem rootOf (fuel : Nat) (w : Window) : (rootOf fuel w).Keeps Filed := by
  induction fuel generalizing w with
  | zero => exact .exhaust
  | succ fuel ih =>
    refine .bind keeps_infoFor fun info => .bind .state fun s => ?_
    split
    · exact ih _
    · exact .pure _

theorem insertMissing (s : Model) (workspace : Workspace) (nonempty : Bool)
    (windows : List Window) : Filed s (s.insertMissing workspace nonempty windows).1 := by
  obtain ⟨regrouped, -⟩ := insertMissing_spec s workspace nonempty windows
  rw [regrouped.frame]
  exact ⟨rfl, rfl, fun _ => rfl⟩

theorem adviseAdding {workspace : Workspace} {windows : List Window} :
    (adviseAdding workspace windows).Keeps Filed := .onlyIf emit

theorem insertIntoWorkspace {workspace : Workspace} {windows : List Window} :
    (insertIntoWorkspace workspace windows).Keeps Filed := by
  intro s
  have filed := insertMissing s workspace (s.windowsIn workspace ≠ []) windows
  rw [Miral.insertIntoWorkspace, ensures_bind, ensures_state, ensures_bind, ensures_update]
  exact (adviseAdding _).mono (fun _ _ h => trans_of Filed filed h)
    (fun _ _ h => trans_of Filed filed h) id

theorem addTreeToWorkspace {window : Option Window} {workspace : Workspace} :
    (addTreeToWorkspace fuel window workspace).Keeps Filed := by
  refine .bind .state fun s => .whenSome fun w => .bind ?_ fun windows => insertIntoWorkspace
  exact .bind (rootOf fuel w) fun root => .bind (keeps_descendants fuel root) fun _ => .pure _

theorem insertFullscreen : Prog.Keeps Filed (update (·.insertFullscreen w) : Manager Unit) :=
  .update fun _ => ⟨rfl, rfl, fun _ => rfl⟩

end Filed

variable {s : Model} {fuel : Nat} {session : Application} {params : SurfaceCreationParameters}
  {surface : Nat}

theorem ofSpecification_output {spec : WindowSpecification} {info : WindowInfo}
    (made : WindowInfo.ofSpecification spec = .ok info) :
    info.outputId = spec.outputId ∧ info.state = spec.state.getD .restored := by
  unfold WindowInfo.ofSpecification at made
  cases named : spec.name <;> cases placed : spec.topLeft <;> cases sized : spec.size <;>
    rw [named, placed, sized] at made <;>
    first
    | contradiction
    | (obtain rfl := Except.ok.inj made
       exact ⟨rfl, rfl⟩)

/-- A new window has the rectangle, the output and the state of its specification. -/
theorem ensures_addSurface_filed :
    (addSurface fuel session params surface).Ensures s
      (fun _ t => ∃ app spec, s.placeNewSurface app (.ofCreationParameters params) = .ok spec ∧
        t.rect ⟨session, surface⟩ = ⟨spec.topLeft.getD ⟨0, 0⟩, spec.size.getD ⟨0, 0⟩⟩ ∧
        t.displayLayout = s.displayLayout ∧ ∃ info, t.info? ⟨session, surface⟩ = some info ∧
          info.outputId = spec.outputId ∧ info.state = spec.state.getD .restored)
      (fun _ _ => True) True := by
  rw [addSurface, ensures_bind, ensures_infoForSession]
  refine ⟨fun app _ => ?_, fun _ => trivial⟩
  rw [ensures_bind, ensures_state, ensures_bind, ensures_ofExcept]
  refine ⟨fun spec placed => ?_, fun _ _ => trivial⟩
  rw [ensures_bind, ensures_update, ensures_bind, ensures_ofExcept]
  refine ⟨fun info made => ?_, fun _ _ => trivial⟩
  rw [ensures_bind, ensures_setInfo]
  have ending : Prog.Keeps Filed (do
      adopt ⟨session, surface⟩ (spec.parent.getD none)
      let info ← infoFor ⟨session, surface⟩
      let s ← Prog.state
      whenSome info.parent fun parent =>
        forEach (addTreeToWorkspace fuel (some ⟨session, surface⟩)) (s.workspacesContaining parent)
      onlyIf (info.state = .fullscreen) (update (·.insertFullscreen ⟨session, surface⟩))
      emit (.adviseNewWindow ⟨session, surface⟩)
      let s ← Prog.state
      whenSome (s.lock info.parent) fun parent =>
        onlyIf (spec.auxRect.isSome ∧ spec.placementHints.isSome) do
          let origin := s.topLeft parent
          emit (.placedRelative ⟨session, surface⟩
            ⟨⟨(s.topLeft ⟨session, surface⟩).x - origin.x,
              (s.topLeft ⟨session, surface⟩).y - origin.y⟩, s.size ⟨session, surface⟩⟩)) := by
    refine .bind Filed.adopt fun _ => .bind keeps_infoFor fun info => .bind .state fun s =>
      .bind (.whenSome fun parent => .forEach (fun _ => Filed.addTreeToWorkspace) _) fun _ =>
        .bind (.onlyIf Filed.insertFullscreen) fun _ => .bind Filed.emit fun _ => .bind .state
          fun s => .whenSome fun parent => .onlyIf Filed.emit
  refine (ending _).mono ?_ (fun _ _ _ => trivial) id
  intro _ t filed
  refine ⟨app, spec, placed, filed.rect.trans ?_, filed.displayLayout, ?_⟩
  · simp [Model.rect, topLeft, size, surface?, Model.setInfo, createSurface]
  · have record := filed.records ⟨session, surface⟩
    rw [info?_setInfo, if_pos rfl] at record
    obtain ⟨info', here, same⟩ := Option.map_eq_some_iff.mp record
    obtain ⟨output, state⟩ := Prod.mk.inj same
    have made' := ofSpecification_output made
    exact ⟨info', here, output.trans made'.1, state.trans made'.2⟩

end Miral
