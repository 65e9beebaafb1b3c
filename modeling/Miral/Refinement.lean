import Miral.Library.Grove
import Miral.Arrival
import Miral.Removal
import Miral.StateChange

/-! Trees and workspaces as a grove: every operation keeps referential integrity and makes
one change of the grove. Only a request for a parent hangs a window on another one. -/
namespace Miral

open Program Prog Forest

def Model.grove (s : Model) : Grove Window Workspace where
  parent := s.parentOf
  member k v := k ∈ s.workspacesContaining v

def requestedLink (s : Model) (w : Window) (modifications : WindowSpecification) (v p : Window) :
    Prop :=
  v = w ∧ modifications.parent = some (some p) ∧
    ∃ info tmp, s.info? w = some info ∧ Requested s modifications info tmp

def validatedLink (s : Model) (w : Window) (modifications : WindowSpecification) (v p : Window) :
    Prop :=
  requestedLink s w modifications v p ∧
    ∃ info, s.info? w = some info ∧ s.validateModificationRequest modifications info = .ok ()

/-- The links an operation makes between windows that exist. -/
def Op.links (s : Model) : Op → Window → Window → Prop
  | modifySurface w modifications => validatedLink s w (.ofSurfaceSpecification modifications)
  | modifyWindow w modifications => requestedLink s w modifications
  | _ => fun _ _ => False

/-- `t` has integrity, and its grove comes from `g` by one change. -/
def Follows (links : Window → Window → Prop) (g : Grove Window Workspace) (t : Model) : Prop :=
  t.Integrity ∧ Grove.Step links g t.grove

variable {s t : Model} {w : Window} {info : WindowInfo} {fuel : Nat}
  {links : Window → Window → Prop} {g : Grove Window Workspace}

theorem mem_grove {k : Workspace} {v : Window} :
    s.grove.member k v ↔ (k, v) ∈ s.workspacesToWindows ∧ k ∈ s.liveWorkspaces :=
  Model.mem_workspacesContaining

namespace Model

theorem SameStructure.grove (same : SameStructure s t) : t.grove = s.grove := by
  have parents : t.parentOf = s.parentOf := funext same.parents
  simp only [Model.grove, parents, same.workspacesContaining]

theorem Undisturbed.member (same : Undisturbed s t) (k : Workspace) (v : Window) :
    t.grove.member k v ↔ s.grove.member k v := by
  simp only [mem_grove, same.workspaces, same.living]

end Model

open Model

theorem Follows.stay (integrity : t.Integrity) : Follows links t.grove t :=
  ⟨integrity, .stay (fun _ => rfl) fun _ _ => Iff.rfl⟩

theorem Follows.same (h : Follows links g s) (integrity : t.Integrity)
    (same : t.grove = s.grove) : Follows links g t :=
  ⟨integrity, same ▸ h.2⟩

theorem closed_grove (g : Grove Window Workspace) :
    FocusClosed fun t => t.Integrity ∧ t.grove = g where
  integrity _ h := h.1
  selected _ _ _ h focusable _ :=
    ⟨h.1.focusOn focusable.managed, sameStructure_focusOn.grove.trans h.2⟩
  next _ h :=
    ⟨h.1.sameStructure sameStructure_nextFocus h.1.mru, sameStructure_nextFocus.grove.trans h.2⟩

theorem closed_follows : FocusClosed (Follows links g) where
  integrity _ h := h.1
  selected _ _ _ h focusable _ :=
    h.same (h.1.focusOn focusable.managed) sameStructure_focusOn.grove
  next _ h := h.same (h.1.sameStructure sameStructure_nextFocus h.1.mru)
    sameStructure_nextFocus.grove

theorem Follows.unfocus (h : Follows links g s) (hint : Option Window) :
    Follows links g (s.unfocus hint) :=
  h.same h.1.unfocus sameStructure_unfocus.grove

theorem follows_setState (h : Follows links g s) (here : s.info? w = some info)
    (value : WindowState) :
    (setState fuel w value).Ensures s (fun _ t => Follows links g t) (fun _ _ => False) True := by
  have live := (h.1.live w).mpr (managed_iff.mpr ⟨info, here⟩)
  refine (closed_follows.setState (fun t h => h.unfocus none) here live ?_ ?_ ?_).unbounded
  · rintro rfl
    apply h.same (h.1.marked here)
    rw [markFullscreen_eq]
    rfl
  · apply h.same (h.1.entered here value)
    have parents : (s.entered w info value).parentOf = s.parentOf :=
      funext fun _ => parentOf_entered here
    unfold Model.grove
    rw [parents, Model.entered, markFullscreen_eq]
    rfl
  · exact fun t _ h => h.same h.1.drawn sameStructure_drawn.grove

theorem Prepared.follows {tmp : WindowInfo} {modifications : WindowSpecification}
    (here : s.info? w = some info) (requested : Requested s modifications info tmp)
    (prepared : Prepared w modifications tmp s t) :
    Follows (requestedLink s w modifications) s.grove t := by
  refine ⟨prepared.integrity, ?_⟩
  have members := prepared.undisturbed.member
  cases asks : modifications.parent with
  | some weak =>
    obtain ⟨p, rfl, -, eq⟩ := requested.linked asks
    refine .hang w p ⟨rfl, asks, info, tmp, here, requested⟩ (fun v => ?_) members
    rw [← eq]
    exact prepared.parents v
  | none =>
    rcases requested.kept asks with same | ⟨gone, -⟩
    · refine .stay (fun v => ?_) members
      change t.parentOf v = s.parentOf v
      rw [prepared.parents]
      by_cases eq : v = w
      · rw [if_pos eq, eq, same, parentOf_eq here]
      · rw [if_neg eq]
    · exact .detach w (fun v => by rw [← gone]; exact prepared.parents v) members

theorem follows_modifyWindow (integrity : s.Integrity) (w : Window)
    (modifications : WindowSpecification) :
    (modifyWindow fuel w modifications).Ensures s
      (fun _ t => Follows (requestedLink s w modifications) s.grove t)
      (fun _ t => Follows (requestedLink s w modifications) s.grove t) True := by
  have start : Follows (requestedLink s w modifications) s.grove s := .stay integrity
  by_cases managed : s.Managed w
  · obtain ⟨info, here⟩ := managed_iff.mp managed
    refine ensures_modifyWindow integrity here (fun _ _ => start) (fun _ _ _ _ _ => trivial) ?_ ?_ ?_
    · exact fun tmp t failure requested prepared _ => prepared.follows here requested
    · exact fun tmp t failure rect requested prepared _ _ _ _ => prepared.follows here requested
    · intro tmp t rect requested prepared _ _ _
      have follows := prepared.follows here requested
      have confine (u : Model) (h : Follows (requestedLink s w modifications) s.grove u) :
          (whenSome modifications.confinePointer fun confinePointer =>
            configure w ({ · with confinePointer })).Ensures u
            (fun _ t => Follows (requestedLink s w modifications) s.grove t)
            (fun _ t => Follows (requestedLink s w modifications) s.grove t) True := by
        rw [ensures_whenSome]
        refine ⟨fun _ _ => ?_, fun _ => h⟩
        exact h.same (h.1.sameStructure (.configure _) (by simpa using h.1.mru))
          (SameStructure.configure _).grove
      rw [ensures_bind, ensures_whenSome]
      constructor
      · intro value _
        exact (follows_setState follows prepared.record value).mono (fun _ u h => confine u h)
          (fun _ _ h => h.elim) id
      · exact fun _ => confine t follows
  · rw [modifyWindow, ensures_bind, requestedInfo, ensures_bind, ensures_infoFor]
    exact ⟨fun info here => absurd (managed_iff.mpr ⟨info, here⟩) managed, fun _ => start⟩

theorem follows_handleRequest (integrity : s.Integrity) (w : Window)
    (modifications : WindowSpecification) :
    (handleRequest fuel w modifications).Ensures s
      (fun _ t => Follows (validatedLink s w modifications) s.grove t)
      (fun _ t => Follows (validatedLink s w modifications) s.grove t) True := by
  have start : Follows (validatedLink s w modifications) s.grove s := .stay integrity
  rw [handleRequest, ensures_bind, ensures_infoFor]
  refine ⟨fun info here => ?_, fun _ => start⟩
  rw [ensures_bind, ensures_state, ensures_bind, ensures_ofExcept]
  refine ⟨fun _ valid => ?_, fun _ _ => start⟩
  rw [applyRequest, ensures_bind, ensures_infoFor_here here]
  rw [ensures_bind, ensures_state]
  have weaken (t : Model)
      (h : Follows (requestedLink s w (s.placeAndSizeForState modifications w info)) s.grove t) :
      Follows (validatedLink s w modifications) s.grove t := by
    refine ⟨h.1, h.2.mono ?_⟩
    intro v p after
    rcases after with ⟨rfl, asks, info', tmp, there, requested⟩
    obtain ⟨topLeft, size, placed⟩ := s.placeAndSizeForState_eq modifications v info
    rw [placed] at asks requested
    exact ⟨⟨rfl, asks, info', tmp, there, requested_placed.mp requested⟩, info, here, valid⟩
  exact (follows_modifyWindow integrity w _).mono (fun _ t => weaken t) (fun _ t => weaken t) id

theorem follows_removeWindow (integrity : s.Integrity) (w : Window) :
    (removeWindow fuel w.application w).Ensures s (fun _ t => Follows links s.grove t)
      (fun _ t => Follows links s.grove t) True := by
  rw [removeWindow, ensures_bind, ensures_infoFor]
  refine ⟨fun info here => ?_, fun _ => .stay integrity⟩
  rw [ensures_bind, ensures_state]
  apply (ensures_dropWindow integrity here).bind_throwless
  intro _ t dropped
  have follows : Follows links s.grove t := by
    refine ⟨dropped.integrity integrity, .leave w (fun v => dropped.parentOf) fun k v => ?_⟩
    rw [mem_grove, mem_grove, dropped.workspaces, dropped.living, List.mem_filter]
    by_cases eq : v = w <;> simp [eq]
  rw [ensures_onlyIf]
  exact ⟨fun _ => (closed_follows.refocus follows).mono (fun _ _ h => h) (fun _ _ h => h.elim) id,
    fun _ => follows⟩

theorem follows_addSurface (integrity : s.Integrity) {session : Application}
    {params : SurfaceCreationParameters} {surface : Nat} (fresh : ¬s.Managed ⟨session, surface⟩)
    (apart : params.parent ≠ some ⟨session, surface⟩) :
    (addSurface fuel session params surface).Ensures s (fun _ t => Follows links s.grove t)
      (fun _ t => Follows links s.grove t) True := by
  refine (ensures_addSurface integrity fresh apart).mono ?_ ?_ id
  · intro _ t added
    refine ⟨added.integrity integrity fresh, ?_⟩
    obtain ⟨joined, pairs, closed, own, -⟩ := added.grouped
    refine .enter ⟨session, surface⟩ (s.lock params.parent)
      (fun k v => joined k v ∧ k ∈ s.liveWorkspaces) ?_ ?_ ?_ added.parents ?_ ?_ ?_
    · exact fun self => apart (lock_eq_some.mp self).1
    · exact fun v link => fresh (integrity.managed_parent link)
    · exact fun k member => fresh (integrity.workspaces _ (mem_grove.mp member).1)
    · intro k v
      rw [mem_grove, mem_grove, pairs, added.living]
      exact or_and_right
    · exact fun k v p link => by rw [closed k v p link]
    · intro k
      rw [own]
      constructor
      · rintro ⟨⟨p, target, member⟩, -⟩
        exact ⟨p, target, member⟩
      · rintro ⟨p, target, member⟩
        exact ⟨⟨p, target, member⟩, (mem_grove.mp member).2⟩
  · rintro _ t rfl
    exact .stay integrity

theorem Follows.regroup (integrity : s.Integrity) (regrouped : Regrouped s t)
    (managed : ∀ k v, (k, v) ∈ t.workspacesToWindows → s.Managed v)
    (whole : s.grove.Uniform → ∀ v p, s.parentOf v = some p → ∀ k,
      t.grove.member k v ↔ t.grove.member k p) : Follows links s.grove t :=
  ⟨regrouped.integrity integrity fun pair member => managed pair.1 pair.2 member,
    .regroup (fun v => congrFun regrouped.parentOf v) whole⟩

theorem follows_addTree (integrity : s.Integrity) {window : Option Window} {k₀ : Workspace} :
    (addTreeToWorkspace fuel window k₀).Ensures s (fun _ t => Follows links s.grove t)
      (fun _ t => Follows links s.grove t) True := by
  refine (ensures_addTreeToWorkspace integrity.toLinked).mono ?_ (fun _ _ h => h.elim)
    fun _ => trivial
  intro _ t after
  rcases after with ⟨regrouped, windows, tree, joined⟩
  refine .regroup integrity regrouped (fun k v member => ?_) fun uniform v p link k => ?_
  · rcases (joined k v).mp member with old | ⟨-, new⟩
    · exact integrity.workspaces _ old
    · exact tree.managed v new
  · have alike := uniform v p link k
    rw [mem_grove, mem_grove] at alike
    rw [mem_grove, mem_grove, joined, joined, regrouped.living, tree.closed v p link, or_and_right,
      or_and_right, alike]

theorem follows_removeTree (integrity : s.Integrity) {window : Option Window} {k₀ : Workspace} :
    (removeTreeFromWorkspace fuel window k₀).Ensures s (fun _ t => Follows links s.grove t)
      (fun _ t => Follows links s.grove t) True := by
  refine (ensures_removeTreeFromWorkspace integrity.toLinked).mono ?_ (fun _ _ h => h.elim)
    fun _ => trivial
  intro _ t after
  rcases after with ⟨regrouped, windows, tree, pairs⟩
  refine .regroup integrity regrouped (fun k v member => ?_) fun uniform v p link k => ?_
  · exact integrity.workspaces _ ((pairs k v).mp member).1
  · have alike := uniform v p link k
    rw [mem_grove, mem_grove] at alike
    rw [mem_grove, mem_grove, pairs, pairs, regrouped.living, tree.closed v p link, and_right_comm,
      alike, and_right_comm]

theorem follows_moveContent (integrity : s.Integrity) {k₀ k₁ : Workspace}
    (live : k₁ ∈ s.liveWorkspaces) :
    (moveWorkspaceContentToWorkspace k₀ k₁).Ensures s (fun _ t => Follows links s.grove t)
      (fun _ t => Follows links s.grove t) True := by
  refine (ensures_moveWorkspaceContent k₀ k₁).mono ?_ (fun _ _ h => h.elim) id
  intro _ t after
  rcases after with ⟨regrouped, pairs⟩
  refine .regroup integrity regrouped (fun k v member => ?_) fun uniform v p link k => ?_
  · rcases (pairs k v).mp member with ⟨old, -⟩ | ⟨-, moved⟩
    · exact integrity.workspaces _ old
    · exact integrity.workspaces _ moved
  · have here := uniform v p link k
    have moved := uniform v p link k₁
    simp only [mem_grove, live, and_true] at here moved
    rw [mem_grove, mem_grove, pairs, pairs, regrouped.living, moved]
    constructor
    · rintro ⟨⟨old, ne⟩ | new, living⟩
      · exact ⟨.inl ⟨(here.mp ⟨old, living⟩).1, ne⟩, living⟩
      · exact ⟨.inr new, living⟩
    · rintro ⟨⟨old, ne⟩ | new, living⟩
      · exact ⟨.inl ⟨(here.mpr ⟨old, living⟩).1, ne⟩, living⟩
      · exact ⟨.inr new, living⟩

theorem ensures_placeFullscreen (integrity : s.Integrity) (order : List Window) :
    (placeFullscreen fuel order).Ensures s
      (fun _ t => t.Integrity ∧ Undisturbed s t ∧ SameStructure s t ∧ ∀ v, t.typeOf v = s.typeOf v)
      (fun _ _ => False) (s.Short fuel) := by
  refine ensures_forEach (fun t => t.Integrity ∧ Undisturbed s t ∧ SameStructure s t ∧
    ∀ v, t.typeOf v = s.typeOf v) _ _ (fun w _ t => ?_) ⟨integrity, .refl, .refl, fun _ => rfl⟩
  rintro ⟨integrity, undisturbed, same, types⟩
  rw [ensures_bind, ensures_state, ensures_onlyIf]
  refine ⟨fun live => ?_, fun _ => ⟨integrity, undisturbed, same, types⟩⟩
  rw [ensures_bind, ensures_infoFor]
  constructor
  · intro info here
    refine (ensures_placeAndSize integrity live _ _).mono ?_ (fun _ _ h => h)
      (Short.congr same.parents)
    intro _ u after
    rcases after with ⟨moved, -⟩
    have touched := Retouched.of_moved moved
    exact ⟨moved.integrity integrity, undisturbed.trans touched.undisturbed,
      same.trans touched.sameStructure, fun v => (touched.types v).trans (types v)⟩
  · intro gone
    have managed := (integrity.live w).mp live
    simp [Managed, gone] at managed

/-- `drag_window` only moves. -/
theorem ensures_dragWindow (integrity : s.Integrity) (window : Option Window)
    (movement : Displacement) :
    (dragWindow fuel window movement).Ensures s (fun _ t => ∃ w, Moved w s t)
      (fun _ _ => False) (s.Short fuel) := by
  have still : ∃ w, Moved w s s := ⟨⟨0, 0⟩, .refl⟩
  have move (w : Window) (live : s.Live w) (by' : Displacement) :
      (moveTree fuel w by').Ensures s (fun _ t => ∃ w, Moved w s t) (fun _ _ => False)
        (s.Short fuel) := by
    apply (ensures_moveTree integrity live by').mono (fun _ t h => ⟨w, h.1⟩) (fun _ _ h => h)
    intro short d bound
    have := short d 0 w bound rfl
    omega
  rw [dragWindow, ensures_bind, ensures_state, ensures_whenSome]
  refine ⟨fun w locked => ?_, fun _ => still⟩
  have live := (lock_eq_some.mp locked).2
  rw [ensures_bind, ensures_infoFor]
  constructor
  · intro info here
    rw [ensures_onlyIf]
    refine ⟨fun _ => ?_, fun _ => still⟩
    cases info.state with
    | restored => exact move w live _
    | vertmaximized => exact move w live _
    | horizmaximized => exact move w live _
    | unknown | minimized | maximized | fullscreen | hidden | states => exact still
  · intro gone
    have managed := (integrity.live w).mp live
    simp [Managed, gone] at managed

namespace Model

/-- The state in which an operation starts its work: dead workspaces have been swept out. -/
def swept (s : Model) : Model :=
  { s with
    workspacesToWindows := s.workspacesToWindows.filter (·.1 ∉ s.deadWorkspaces)
    deadWorkspaces := [] }

theorem Integrity.swept (integrity : s.Integrity) : s.swept.Integrity where
  live := integrity.live
  children := integrity.children
  windows := integrity.windows
  mru := integrity.mru
  fullscreen := integrity.fullscreen
  workspaces pair member := integrity.workspaces pair (List.mem_of_mem_filter member)
  retired := by simp [Model.swept]

theorem Integrity.grove_swept (integrity : s.Integrity) : s.swept.grove = s.grove := by
  have members (k : Workspace) (v : Window) : s.swept.grove.member k v ↔ s.grove.member k v := by
    rw [mem_grove, mem_grove]
    simp only [Model.swept, List.mem_filter, decide_eq_true_eq]
    constructor
    · rintro ⟨⟨member, -⟩, living⟩
      exact ⟨member, living⟩
    · rintro ⟨member, living⟩
      exact ⟨⟨member, fun dead => integrity.retired k dead living⟩, living⟩
  have same : s.swept.grove.member = s.grove.member :=
    funext fun k => funext fun v => propext (members k v)
  change Grove.mk s.parentOf s.swept.grove.member = Grove.mk s.parentOf s.grove.member
  rw [same]

end Model

theorem requested_swept {modifications : WindowSpecification} {tmp : WindowInfo} :
    Requested s.swept modifications info tmp ↔ Requested s modifications info tmp :=
  ⟨fun requested => ⟨requested.asked, requested.checked⟩,
    fun requested => ⟨requested.asked, requested.checked⟩⟩

theorem requestedLink_swept {modifications : WindowSpecification} {v p : Window}
    (link : requestedLink s.swept w modifications v p) : requestedLink s w modifications v p := by
  obtain ⟨rfl, asks, info, tmp, here, requested⟩ := link
  exact ⟨rfl, asks, info, tmp, here, requested_swept.mp requested⟩

theorem ensures_locked {body : Manager Unit} {post : Unit → Model → Prop}
    {error : Failure → Model → Prop} {short : Prop} :
    (Op.locked body).Ensures s post error short ↔ body.Ensures s.swept post error short := by
  rw [Op.locked, ensures_bind, locker, ensures_update]
  rfl

theorem follows_locked (integrity : s.Integrity) {body : Manager Unit}
    (follows : body.Ensures s.swept (fun _ t => Follows links s.swept.grove t)
      (fun _ t => Follows links s.swept.grove t) True) :
    (Op.locked body).Ensures s (fun _ t => Follows links s.grove t)
      (fun _ t => Follows links s.grove t) True := by
  rw [ensures_locked, ← integrity.grove_swept]
  exact follows

theorem follows_same (integrity : s.Integrity) {body : Manager Unit}
    (same : body.Ensures s.swept (fun _ t => t.Integrity ∧ t.grove = s.swept.grove)
      (fun _ t => t.Integrity ∧ t.grove = s.swept.grove) True) :
    (Op.locked body).Ensures s (fun _ t => Follows links s.grove t)
      (fun _ t => Follows links s.grove t) True := by
  have stay (t : Model) (h : t.Integrity ∧ t.grove = s.swept.grove) :
      Follows links s.swept.grove t := by
    rw [← h.2]
    exact .stay h.1
  exact follows_locked integrity (same.mono (fun _ t => stay t) (fun _ t => stay t) id)

theorem same_select (integrity : s.Integrity) (hint : Option Window) :
    Ensures (selectActiveWindow fuel hint >>= fun _ => pure ()) s
      (fun _ t => t.Integrity ∧ t.grove = s.grove) (fun _ t => t.Integrity ∧ t.grove = s.grove)
      True := by
  rw [ensures_bind]
  cases locked : s.lock hint with
  | some w =>
    obtain ⟨rfl, live⟩ := lock_eq_some.mp locked
    exact ((closed_grove s.grove).select ⟨integrity, rfl⟩ live).mono (fun _ _ h => h)
      (fun _ _ h => h.elim) fun _ => trivial
  | none =>
    refine (ensures_selectNull integrity locked).mono ?_ (fun _ _ h => h.elim) fun _ => trivial
    intro _ t after
    rcases after with ⟨-, rfl⟩
    exact ⟨integrity.unfocus, sameStructure_unfocus.grove⟩

theorem same_placeFullscreen {displays : List Rectangle} {layout : DisplayLayout}
    (integrity : s.Integrity) (order : List Window) :
    (placeFullscreen fuel order).Ensures
      { s with displayLayout := layout, displays := displays }
      (fun _ t => t.Integrity ∧ t.grove = s.grove) (fun _ t => t.Integrity ∧ t.grove = s.grove)
      True := by
  have changed : SameStructure s { s with displayLayout := layout, displays := displays } :=
    .of_frame rfl
  refine (ensures_placeFullscreen (integrity.sameStructure changed integrity.mru) order).mono ?_
    (fun _ _ h => h.elim) fun _ => trivial
  intro _ t after
  rcases after with ⟨integrity', -, same, -⟩
  exact ⟨integrity', (changed.trans same).grove⟩

theorem sameStructure_addSession {session : Application} (fresh : s.app? session = none) :
    SameStructure s ((s.setApp session ⟨[]⟩).emit (.adviseNewApp session)) := by
  refine ⟨fun _ => Iff.rfl, fun _ => Iff.rfl, fun _ => rfl, fun _ => rfl, fun a => ?_,
    fun _ => rfl, rfl, rfl, rfl, rfl⟩
  change (s.setApp session ⟨[]⟩).windowsOf a = _
  rw [windowsOf_setApp]
  split
  · rename_i eq
    have absent : s.app? a = none := eq ▸ fresh
    simp [windowsOf, absent]
  · rfl

theorem follows_createWorkspace {links : Window → Window → Prop} {k : Workspace}
    (integrity : s.Integrity) (contract : (Op.createWorkspace k).Contract s) :
    Follows links s.grove { s with liveWorkspaces := s.liveWorkspaces ++ [k] } := by
  obtain ⟨-, undead, empty⟩ := contract
  refine ⟨⟨⟨integrity.live, integrity.children⟩, integrity.windows, integrity.mru,
    integrity.fullscreen, integrity.workspaces, fun k' dead living => ?_⟩,
    .stay (fun _ => rfl) fun k' v => ?_⟩
  · rcases List.mem_append.mp living with old | new
    · exact integrity.retired k' dead old
    · exact undead (List.mem_singleton.mp new ▸ dead)
  · rw [mem_grove, mem_grove]
    constructor
    · rintro ⟨member, living⟩
      rcases List.mem_append.mp living with old | new
      · exact ⟨member, old⟩
      · exact absurd (List.mem_singleton.mp new) (empty _ member)
    · rintro ⟨member, living⟩
      exact ⟨member, List.mem_append_left _ living⟩

theorem follows_destroyWorkspace {links : Window → Window → Prop} {k : Workspace}
    (integrity : s.Integrity) :
    Follows links s.grove { s with
      liveWorkspaces := s.liveWorkspaces.filter (· ≠ k)
      deadWorkspaces := s.deadWorkspaces ++ [k] } := by
  refine ⟨⟨⟨integrity.live, integrity.children⟩, integrity.windows, integrity.mru,
    integrity.fullscreen, integrity.workspaces, fun k' dead living => ?_⟩,
    .regroup (fun _ => rfl) ?_⟩
  · obtain ⟨old, ne⟩ := List.mem_filter.mp living
    rcases List.mem_append.mp dead with before | now
    · exact integrity.retired k' before old
    · exact absurd (List.mem_singleton.mp now) (by simpa using ne)
  · intro uniform v p link k'
    have alike := uniform v p link k'
    rw [mem_grove, mem_grove] at alike ⊢
    simp only [List.mem_filter, ← and_assoc, alike]

/-- Every operation, whether it returns or throws, keeps integrity and changes the grove in
one step. -/
theorem follows_run (fuel : Nat) (op : Op) (integrity : s.Integrity) (contract : op.Contract s) :
    (op.run fuel).Ensures s (fun _ t => Follows (op.links s) s.grove t)
      (fun _ t => Follows (op.links s) s.grove t) True := by
  have swept := integrity.swept
  have focused {body : Manager Unit}
      (kept : body.Ensures s.swept (fun _ t => t.Integrity ∧ t.grove = s.swept.grove)
        (fun _ _ => False) True) :
      body.Ensures s.swept (fun _ t => t.Integrity ∧ t.grove = s.swept.grove)
        (fun _ t => t.Integrity ∧ t.grove = s.swept.grove) True :=
    kept.mono (fun _ _ h => h) (fun _ _ h => h.elim) id
  have closed := closed_grove s.swept.grove
  cases op with
  | addSession session =>
    apply follows_same integrity
    rw [addSession, ensures_bind, ensures_update, ensures_emit]
    have same : SameStructure s.swept _ := sameStructure_addSession contract
    exact ⟨swept.sameStructure same swept.mru, same.grove⟩
  | addSurface session params surface =>
    exact follows_locked integrity (follows_addSurface swept contract.1 contract.2.2)
  | modifySurface w modifications =>
    apply follows_locked integrity
    have weaken (t : Model) (h : Follows
        (validatedLink s.swept w (.ofSurfaceSpecification modifications)) s.swept.grove t) :
        Follows ((Op.modifySurface w modifications).links s) s.swept.grove t := by
      refine ⟨h.1, h.2.mono fun v p link => ⟨requestedLink_swept link.1, ?_⟩⟩
      obtain ⟨info, here, valid⟩ := link.2
      exact ⟨info, here, valid⟩
    exact (follows_handleRequest swept w _).mono (fun _ t => weaken t) (fun _ t => weaken t) id
  | setSurfaceAttribute w attrib =>
    apply follows_locked integrity
    have weaken (t : Model) (modifications : WindowSpecification)
        (unset : modifications.parent = none)
        (h : Follows (validatedLink s.swept w modifications) s.swept.grove t) :
        Follows ((Op.setSurfaceAttribute w attrib).links s) s.swept.grove t := by
      refine ⟨h.1, h.2.mono fun v p link => ?_⟩
      have asks := link.1.2.1
      simp [unset] at asks
    cases attrib <;> exact (follows_handleRequest swept w _).mono (fun _ t => weaken t _ rfl)
      (fun _ t => weaken t _ rfl) id
  | removeSurface session w =>
    obtain rfl : session = w.application := contract
    exact follows_locked integrity (follows_removeWindow swept w)
  | forceClose window =>
    apply follows_locked integrity
    rw [forceClose, ensures_bind, ensures_state, ensures_whenSome]
    exact ⟨fun w _ => follows_removeWindow swept w, fun _ => .stay swept⟩
  | modifyWindow w modifications =>
    apply follows_locked integrity
    have weaken (t : Model) (h : Follows (requestedLink s.swept w modifications) s.swept.grove t) :
        Follows ((Op.modifyWindow w modifications).links s) s.swept.grove t :=
      ⟨h.1, h.2.mono fun v p link => requestedLink_swept link⟩
    exact (follows_modifyWindow swept w modifications).mono (fun _ t => weaken t)
      (fun _ t => weaken t) id
  | selectActiveWindow hint => exact follows_same integrity (same_select swept hint)
  | handleWindowReady w => exact follows_same integrity (closed.handleWindowReady ⟨swept, rfl⟩)
  | handleRaiseSurface w timestamp =>
    exact follows_same integrity (closed.handleRaiseSurface ⟨swept, rfl⟩)
  | inputEvent timestamp cursor =>
    apply follows_same integrity
    exact ⟨swept.sameStructure (.of_frame rfl) swept.mru, rfl⟩
  | focusNextApplication =>
    exact follows_same integrity (focused (closed.focusNextApplication ⟨swept, rfl⟩))
  | focusNextWithinApplication =>
    exact follows_same integrity
      (focused (closed.focusSibling id (fun _ => List.Subset.refl _) ⟨swept, rfl⟩))
  | focusPrevWithinApplication =>
    exact follows_same integrity (focused
      (closed.focusSibling List.reverse (fun _ => List.reverse_subset.mpr (List.Subset.refl _))
        ⟨swept, rfl⟩))
  | raiseTree w =>
    apply follows_same integrity
    apply (ensures_raiseTree_any swept w).mono ?_ ?_ id
    · intro _ t after
      rcases after with ⟨raised, -, rfl⟩
      exact ⟨swept.emits, rfl⟩
    · rintro _ t rfl
      exact ⟨swept, rfl⟩
  | dragWindow window movement =>
    apply follows_same integrity
    refine (ensures_dragWindow swept window movement).mono ?_ (fun _ _ h => h.elim)
      fun _ => trivial
    intro _ t after
    rcases after with ⟨w, moved⟩
    exact ⟨moved.integrity swept, moved.sameStructure.grove⟩
  | addDisplay area layout order => exact follows_same integrity (same_placeFullscreen swept order)
  | removeDisplay area layout order =>
    exact follows_same integrity (same_placeFullscreen swept order)
  | addTreeToWorkspace w k => exact follows_locked integrity (follows_addTree swept)
  | removeTreeFromWorkspace w k => exact follows_locked integrity (follows_removeTree swept)
  | moveWorkspaceContentToWorkspace k₀ k₁ =>
    exact follows_locked integrity (follows_moveContent swept contract.2)
  | postBuffer w =>
    have same := SameStructure.configure (s := s) (w := w) ({ · with posted := true })
    have kept : (s.configure w ({ · with posted := true })).Integrity :=
      integrity.sameStructure same (by simpa using integrity.mru)
    exact (Follows.stay integrity).same kept same.grove
  | createWorkspace k => exact follows_createWorkspace integrity contract
  | destroyWorkspace k => exact follows_destroyWorkspace integrity

end Miral
