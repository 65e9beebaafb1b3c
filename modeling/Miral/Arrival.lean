import Miral.Grouping
import Miral.Modification

/-! `add_surface`: a new record, linked to its parent, listed with its application and put
in the workspaces of its parent. -/
namespace Miral

open Program Prog Forest

theorem Except.bind_ok {ε α β : Type} {x : Except ε α} {f : α → Except ε β} {b : β}
    (ok : (x >>= f) = .ok b) : ∃ a, x = .ok a ∧ f a = .ok b := by
  cases x with
  | error => contradiction
  | ok a => exact ⟨a, rfl, ok⟩

namespace Model

variable {s t : Model} {w v : Window}

/-- What placing a new surface keeps of the request, and what it makes sure is set. -/
structure PlacedSpec (params : SurfaceCreationParameters) (spec : WindowSpecification) : Prop where
  name : spec.name = some params.name
  topLeft : spec.topLeft.isSome
  size : spec.size.isSome
  parent : spec.parent = some params.parent

theorem placeOnOutput_ok {app : ApplicationInfo} {params : SurfaceCreationParameters}
    {parameters : WindowSpecification} {hasParent : Bool}
    {result : WindowSpecification × Bool} (placed : PlacedSpec params parameters)
    (ok : s.placeOnOutput app parameters hasParent = .ok result) : PlacedSpec params result.1 := by
  unfold placeOnOutput at ok
  dsimp only at ok
  split at ok
  · obtain ⟨topLeft, -, ok⟩ := Except.bind_ok ok
    obtain ⟨size, -, ok⟩ := Except.bind_ok ok
    rw [← Except.ok.inj ok]
    exact ⟨placed.name, rfl, rfl, placed.parent⟩
  · split at ok
    · rw [← Except.ok.inj ok]
      exact placed
    · split at ok
      · obtain ⟨size, -, ok⟩ := Except.bind_ok ok
        rw [← Except.ok.inj ok]
        exact ⟨placed.name, rfl, placed.size, placed.parent⟩
      · rw [← Except.ok.inj ok]
        exact placed

theorem placeOnParent_ok {params : SurfaceCreationParameters} {parent : Window}
    {parameters result : WindowSpecification} {height : Int}
    (placed : PlacedSpec params parameters)
    (ok : s.placeOnParent parent parameters height = .ok result) : PlacedSpec params result := by
  unfold placeOnParent at ok
  split at ok
  · contradiction
  · obtain ⟨size, -, ok⟩ := Except.bind_ok ok
    split at ok
    · obtain ⟨position, -, ok⟩ := Except.bind_ok ok
      rw [← Except.ok.inj ok]
      exact ⟨placed.name, rfl, rfl, placed.parent⟩
    · rw [← Except.ok.inj ok]
      exact ⟨placed.name, rfl, placed.size, placed.parent⟩

theorem placeByState_ok {params : SurfaceCreationParameters}
    {parameters result : WindowSpecification} {height : Int}
    (placed : PlacedSpec params parameters)
    (ok : s.placeByState parameters height = .ok result) : PlacedSpec params result := by
  unfold placeByState at ok
  obtain ⟨size, -, ok⟩ := Except.bind_ok ok
  obtain ⟨state, -, ok⟩ := Except.bind_ok ok
  rw [← Except.ok.inj ok]
  exact ⟨placed.name, rfl, rfl, placed.parent⟩

theorem placeNewSurface_ok {app : ApplicationInfo} {params : SurfaceCreationParameters}
    {spec : WindowSpecification}
    (ok : s.placeNewSurface app (.ofCreationParameters params) = .ok spec) :
    PlacedSpec params spec := by
  have asked : PlacedSpec params (.ofCreationParameters params) := by
    unfold WindowSpecification.ofCreationParameters
    dsimp only
    split <;> exact ⟨rfl, rfl, rfl, rfl⟩
  unfold placeNewSurface at ok
  obtain ⟨requested, -, ok⟩ := Except.bind_ok ok
  obtain ⟨⟨parameters, positioned⟩, output, ok⟩ := Except.bind_ok ok
  have placed : PlacedSpec params (parameters, positioned).1 := by
    refine placeOnOutput_ok ?_ output
    exact ⟨asked.name, asked.topLeft, asked.size, asked.parent⟩
  dsimp only at ok
  split at ok
  · exact placeOnParent_ok placed ok
  · split at ok
    · rw [← Except.ok.inj ok]
      exact placed
    · exact placeByState_ok placed ok

theorem ofSpecification_placed {params : SurfaceCreationParameters} {spec : WindowSpecification}
    (placed : PlacedSpec params spec) : ∃ info, WindowInfo.ofSpecification spec = .ok info ∧
      info.parent = none ∧ info.children = [] ∧ info.state = spec.state.getD .restored := by
  obtain ⟨topLeft, place⟩ := Option.isSome_iff_exists.mp placed.topLeft
  obtain ⟨size, extent⟩ := Option.isSome_iff_exists.mp placed.size
  unfold WindowInfo.ofSpecification
  rw [placed.name, place, extent]
  exact ⟨_, rfl, rfl, rfl, rfl⟩

/-- `t` is `s` with the new window `w`, a child of `parent` if it has one. -/
structure Added (w : Window) (parent : Option Window) (s t : Model) : Prop where
  managed : ∀ v, t.Managed v ↔ v = w ∨ s.Managed v
  live : ∀ v, t.Live v ↔ v = w ∨ s.Live v
  parents : ∀ v, t.parentOf v = if v = w then parent else s.parentOf v
  counts : ∀ p c, (t.childrenOf p).count c = if t.parentOf c = some p then 1 else 0
  types : ∀ v, v ≠ w → t.typeOf v = s.typeOf v
  states : ∀ v, v ≠ w → t.stateOf v = s.stateOf v
  windows : ∀ a, t.windowsOf a = if a = w.application then s.windowsOf a ++ [w]
    else s.windowsOf a
  mru : t.mruActiveWindows = s.mruActiveWindows
  focus : t.focus = s.focus
  fullscreen : ∀ v, v ∈ t.fullscreenSurfaces ↔
    v ∈ s.fullscreenSurfaces ∨ v = w ∧ t.stateOf w = some .fullscreen
  sight : ∀ v, v ≠ w → (t.surface? v).map Surface.sight = (s.surface? v).map Surface.sight
  unposted : ∃ state, t.stateOf w = some state ∧
    (t.surface? w).map Surface.sight = some (state, false, false)
  living : t.liveWorkspaces = s.liveWorkspaces
  dead : t.deadWorkspaces = s.deadWorkspaces
  quiet : ∃ events, (∀ event ∈ events, event.quiet) ∧ t.log = s.log ++ events
  /-- Trees that contain `w` join the workspaces of its parent. -/
  grouped : ∃ joined : Workspace → Window → Prop,
    (∀ k v, (k, v) ∈ t.workspacesToWindows ↔ (k, v) ∈ s.workspacesToWindows ∨ joined k v) ∧
    (∀ k v p, t.parentOf v = some p → (joined k v ↔ joined k p)) ∧
    (∀ k, joined k w ↔ ∃ p, parent = some p ∧ k ∈ s.workspacesContaining p) ∧
    ∀ k v, joined k v → t.Managed v

theorem Added.integrity (integrity : s.Integrity) {parent : Option Window}
    (fresh : ¬s.Managed w) (h : Added w parent s t) : t.Integrity where
  live v := by rw [h.live, h.managed, integrity.live]
  children := h.counts
  windows a v := by
    rw [h.windows]
    have count := integrity.windows a v
    by_cases own : v = w
    · subst own
      by_cases app : a = v.application
      · subst app
        simp [List.count_append, count, fresh, h.managed]
      · simp [app, count, fresh, Ne.symm app]
    · have same : t.Managed v ↔ s.Managed v := by rw [h.managed, or_iff_right own]
      simp only [same]
      split
      · rw [List.count_append, count, List.count_eq_zero_of_not_mem (by simpa using own)]
        rfl
      · exact count
  mru v member := (h.managed v).mpr (.inr (integrity.mru v (h.mru ▸ member)))
  fullscreen v := by
    rw [h.fullscreen]
    by_cases eq : v = w
    · subst eq
      have absent : v ∉ s.fullscreenSurfaces := by
        rw [integrity.fullscreen, stateOf]
        cases here : s.info? v with
        | none => simp
        | some info => exact absurd (managed_iff.mpr ⟨info, here⟩) fresh
      simp [absent]
    · rw [h.states v eq, ← integrity.fullscreen]
      apply or_iff_left
      intro arriving
      exact eq arriving.1
  workspaces pair member := by
    obtain ⟨joined, pairs, -, -, managed⟩ := h.grouped
    rcases (pairs pair.1 pair.2).mp member with old | new
    · exact (h.managed _).mpr (.inr (integrity.workspaces pair old))
    · exact managed _ _ new
  retired := by
    rw [h.dead, h.living]
    exact integrity.retired

end Model

open Model

variable {s : Model} {w : Window} {info : WindowInfo} {fuel : Nat}

/-- The new record finds its parent, and the application and the parent find the window. -/
theorem ensures_adopt {hint : Option Window} {short : Prop} (here : s.info? w = some info)
    (orphan : info.parent = none) (apart : hint ≠ some w)
    (managed : ∀ p, s.lock hint = some p → s.Managed p)
    (app : ∃ a, s.app? w.application = some a) :
    (adopt w hint).Ensures s (fun _ t =>
        t = { s with windowInfo := t.windowInfo, appInfo := t.appInfo } ∧
        (∀ v, t.info? v = if v = w then some { info with parent := s.lock hint }
          else if s.lock hint = some v then (s.info? v).map (·.addChild w) else s.info? v) ∧
        ∀ a, t.windowsOf a = if a = w.application then s.windowsOf a ++ [w] else s.windowsOf a)
      (fun _ _ => False) short := by
  have rest (t : Model) (frame : t = { s with windowInfo := t.windowInfo })
      (infos : ∀ v, t.info? v = if v = w then some { info with parent := s.lock hint }
        else s.info? v) :
      Ensures (do
        modifySession w.application fun app => { app with windows := app.windows ++ [w] }
        let info ← infoFor w
        let s ← Prog.state
        whenSome (s.lock info.parent) fun parent => modifyInfo parent (·.addChild w)) t
        (fun _ t =>
          t = { s with windowInfo := t.windowInfo, appInfo := t.appInfo } ∧
          (∀ v, t.info? v = if v = w then some { info with parent := s.lock hint }
            else if s.lock hint = some v then (s.info? v).map (·.addChild w) else s.info? v) ∧
          ∀ a, t.windowsOf a = if a = w.application then s.windowsOf a ++ [w]
            else s.windowsOf a) (fun _ _ => False) short := by
    obtain ⟨appInfo, found⟩ := app
    have same : t.app? w.application = some appInfo := by rw [frame]; exact found
    rw [ensures_bind, ensures_modifySession_here same]
    have own : t.info? w = some { info with parent := s.lock hint } := by simp [infos]
    generalize listed : t.setApp w.application { appInfo with windows := appInfo.windows ++ [w] } = u
    have frame' : u = { s with windowInfo := u.windowInfo, appInfo := u.appInfo } := by
      rw [← listed, setApp, frame]
    have infos' (v : Window) : u.info? v = t.info? v := by rw [← listed]; rfl
    have windows (a : Application) : u.windowsOf a =
        if a = w.application then s.windowsOf a ++ [w] else s.windowsOf a := by
      rw [← listed, windowsOf_setApp]
      by_cases eq : a = w.application
      · subst eq
        simp [windowsOf_eq found]
      · rw [if_neg eq, if_neg eq, frame]
        rfl
    rw [ensures_bind, ensures_infoFor_here ((infos' w).trans own), ensures_bind, ensures_state]
    have locked : u.lock (s.lock hint) = s.lock hint := by
      have lives (v : Window) : u.Live v ↔ s.Live v := by rw [frame']; rfl
      cases target : s.lock hint with
      | none => rfl
      | some p => exact lock_some ((lives p).mpr (lock_eq_some.mp target).2)
    dsimp only
    rw [locked, ensures_whenSome]
    constructor
    · intro p target
      have ne : p ≠ w := by
        rintro rfl
        exact apart (lock_eq_some.mp target).1
      obtain ⟨parentInfo, there⟩ := managed_iff.mp (managed p target)
      have there' : u.info? p = some parentInfo := by simp [infos', infos, ne, there]
      rw [ensures_modifyInfo_here there']
      refine ⟨by rw [frame']; rfl, fun v => ?_, windows⟩
      rw [info?_setInfo, infos', infos, target]
      by_cases self : v = w
      · subst self
        simp [Ne.symm ne]
      · by_cases parent : v = p
        · subst parent
          simp [self, there]
        · simp [self, parent, Ne.symm parent]
    · intro none
      refine ⟨frame', fun v => ?_, windows⟩
      rw [infos', infos, none]
      simp
  rw [adopt, ensures_bind, ensures_state, ensures_bind, ensures_whenSome]
  constructor
  · intro p target
    obtain ⟨parentInfo, there⟩ := managed_iff.mp (managed p target)
    rw [ensures_bind, ensures_infoFor_here there, ensures_modifyInfo_here here]
    exact rest _ rfl fun v => by rw [info?_setInfo, target]
  · intro none
    apply rest s rfl
    intro v
    by_cases eq : v = w
    · subst eq
      rw [if_pos rfl, here, none, ← orphan]
    · rw [if_neg eq]

/-- Adding the tree of a window to one workspace after the other. -/
theorem ensures_joinAll (linked : s.Linked) (live : s.Live w) (ks : List Workspace) :
    (forEach (addTreeToWorkspace fuel (some w)) ks).Ensures s
      (fun _ t => Regrouped s t ∧ ∃ joined : Workspace → Window → Prop,
        (∀ k v, (k, v) ∈ t.workspacesToWindows ↔ (k, v) ∈ s.workspacesToWindows ∨ joined k v) ∧
        (∀ k v p, s.parentOf v = some p → (joined k v ↔ joined k p)) ∧
        (∀ k, joined k w ↔ k ∈ ks) ∧ ∀ k v, joined k v → s.Managed v)
      (fun _ _ => False) (s.Short fuel) := by
  induction ks generalizing s with
  | nil => exact ⟨.refl, fun _ _ => False, by simp, by simp, by simp, by simp⟩
  | cons k₀ rest ih =>
    apply (ensures_addTreeToWorkspace linked).bind
    intro _ t after
    rcases after with ⟨regrouped, windows, tree, joins⟩
    have linked' : t.Linked :=
      ⟨fun v => by rw [regrouped.live, regrouped.managed, linked.live],
        fun p c => by rw [regrouped.childrenOf, regrouped.parentOf, linked.children]⟩
    refine (ih linked' (regrouped.live.mpr live)).mono ?_ (fun _ _ h => h) ?_
    · intro _ u after
      rcases after with ⟨regrouped', joined, pairs, closed, own, managed⟩
      refine ⟨regrouped.trans regrouped', fun k v => (k = k₀ ∧ v ∈ windows) ∨ joined k v,
        fun k v => ?_, fun k v p link => ?_, fun k => ?_, fun k v => ?_⟩
      · rw [pairs, joins, or_assoc]
      · dsimp only
        rw [closed k v p (by rwa [regrouped.parentOf]), tree.closed v p link]
      · have listed := tree.listed w (lock_some live)
        simp [own, listed]
      · intro either
        rcases either with ⟨-, member⟩ | later
        · exact tree.managed v member
        · exact regrouped.managed.mp (managed k v later)
    · intro short d bound
      exact short d (by rwa [DepthBelow, regrouped.parentOf])

/-- `t` is `s` once the record of the new window `w` has been linked and listed. -/
structure Attached (w : Window) (info : WindowInfo) (parent : Option Window) (s t : Model) :
    Prop where
  fresh : ¬s.Managed w
  known : ∀ p, parent = some p → s.Managed p
  childless : info.children = []
  frame : t = { s with windowInfo := t.windowInfo, appInfo := t.appInfo, scene := t.scene }
  infos : ∀ v, t.info? v = if v = w then some { info with parent := parent }
    else if parent = some v then (s.info? v).map (·.addChild w) else s.info? v
  windows : ∀ a, t.windowsOf a = if a = w.application then s.windowsOf a ++ [w]
    else s.windowsOf a
  surfaces : ∀ v, v ≠ w → t.surface? v = s.surface? v
  unposted : (t.surface? w).map Surface.sight = some (info.state, false, false)

namespace Attached

variable {t u : Model} {parent : Option Window} {v : Window} (h : Attached w info parent s t)

include h

theorem apart {p : Window} (eq : parent = some p) : p ≠ w := by
  rintro rfl
  exact h.fresh (h.known p eq)

theorem parentOf : t.parentOf v = if v = w then parent else s.parentOf v := by
  rw [Model.parentOf, h.infos]
  by_cases eq : v = w
  · simp [eq]
  · by_cases link : parent = some v
    · cases here : s.info? v <;> simp [eq, link, here, Model.parentOf, WindowInfo.addChild]
    · simp [eq, link, Model.parentOf]

theorem childrenOf : t.childrenOf v = if v = w then [] else
    if parent = some v then s.childrenOf v ++ [w] else s.childrenOf v := by
  rw [Model.childrenOf, h.infos]
  by_cases eq : v = w
  · simp [eq, h.childless]
  · by_cases link : parent = some v
    · obtain ⟨parentInfo, there⟩ := managed_iff.mp (h.known v link)
      simp [eq, link, there, childrenOf_eq there, WindowInfo.addChild]
    · simp [eq, link, Model.childrenOf]

theorem managed : t.Managed v ↔ v = w ∨ s.Managed v := by
  rw [Managed, h.infos]
  by_cases eq : v = w
  · simp [eq]
  · by_cases link : parent = some v <;> simp [eq, link, Managed]

theorem live : t.Live v ↔ v = w ∨ s.Live v := by
  by_cases eq : v = w
  · subst eq
    cases drawn : t.surface? v with
    | none => simpa [drawn] using h.unposted
    | some surface => simp [Live, drawn]
  · simp [Live, h.surfaces v eq, eq]

theorem counts (linked : s.Linked) (p c : Window) :
    (t.childrenOf p).count c = if t.parentOf c = some p then 1 else 0 := by
  have count := linked.children p c
  have fresh := h.fresh
  rw [h.childrenOf, h.parentOf]
  by_cases own : p = w
  · subst own
    have unlinked : ¬s.parentOf c = some p := fun link => fresh (linked.managed_parent link)
    have foreign : parent ≠ some p := fun eq => h.apart eq rfl
    by_cases self : c = p <;> simp [self, foreign, unlinked]
  · by_cases self : c = w
    · subst self
      have absent : (s.childrenOf p).count c = 0 := by
        rw [count, if_neg fun link => fresh (managed_of_parentOf link)]
      by_cases link : parent = some p <;> simp [own, link, absent]
    · by_cases link : parent = some p
      · simp [own, link, self, Ne.symm self, List.count_append, count]
      · simp [own, link, self, count]

theorem linked (linked : s.Linked) : t.Linked where
  live v := by rw [h.live, h.managed, linked.live]
  children := h.counts linked

theorem stateOf (ne : v ≠ w) : t.stateOf v = s.stateOf v := by
  rw [Model.stateOf, h.infos, if_neg ne]
  by_cases link : parent = some v
  · cases here : s.info? v <;> simp [link, here, Model.stateOf, WindowInfo.addChild]
  · simp [link, Model.stateOf]

theorem typeOf (ne : v ≠ w) : t.typeOf v = s.typeOf v := by
  rw [Model.typeOf, h.infos, if_neg ne]
  by_cases link : parent = some v
  · cases here : s.info? v <;> simp [link, here, Model.typeOf, WindowInfo.addChild]
  · simp [link, Model.typeOf]

theorem ownState : t.stateOf w = some info.state := by
  simp [Model.stateOf, h.infos]

theorem containing : t.workspacesContaining v = s.workspacesContaining v := by
  rw [h.frame]
  rfl

/-- The new window is below nothing but its parent, and above nothing at all. -/
theorem depthBelow (linked : s.Linked) {d : Nat} (bound : s.DepthBelow d) :
    t.DepthBelow (d + 1) := by
  have others (n : Nat) (v : Window) (ne : v ≠ w) :
      climb t.parentOf n v = climb s.parentOf n v :=
    climb_enter (fun v ne => by rw [h.parentOf, if_neg ne])
      (fun v link => h.fresh (linked.managed_parent link)) n ne
  intro v
  by_cases eq : v = w
  · subst eq
    have own : t.parentOf v = parent := by rw [h.parentOf, if_pos rfl]
    cases link : parent with
    | none => exact climb_root (own.trans link) d
    | some p => rw [climb_link (own.trans link), others d p (h.apart link), bound]
  · rw [others (d + 1) v eq]
    exact climb_none_mono (bound v) (Nat.le_succ d)

/-- What is left is to group the tree, to list it if it is fullscreen, and to announce it. -/
theorem added (linked : s.Linked) (regrouped : Regrouped t u)
    (grouped : ∃ joined : Workspace → Window → Prop,
      (∀ k v, (k, v) ∈ u.workspacesToWindows ↔ (k, v) ∈ t.workspacesToWindows ∨ joined k v) ∧
      (∀ k v p, t.parentOf v = some p → (joined k v ↔ joined k p)) ∧
      (∀ k, joined k w ↔ ∃ p, parent = some p ∧ k ∈ t.workspacesContaining p) ∧
      ∀ k v, joined k v → t.Managed v)
    (events : List Event) (quiet : ∀ event ∈ events, event.quiet) :
    Added w parent s
      ((if info.state = .fullscreen then u.insertFullscreen w else u).emits events) := by
  have full : (if info.state = .fullscreen then u.insertFullscreen w else u) =
      { u with fullscreenSurfaces :=
        (if info.state = .fullscreen then u.insertFullscreen w else u).fullscreenSurfaces } := by
    split <;> rfl
  have frame := h.frame
  have counts := h.counts linked
  obtain ⟨joined, pairs, closed, own, known⟩ := grouped
  obtain ⟨told, toldQuiet, toldLog⟩ := regrouped.quiet
  rw [full]
  exact
    { managed := fun v => by rw [← h.managed, ← regrouped.managed]; rfl
      live := fun v => by rw [← h.live, ← regrouped.live]; rfl
      parents := fun v => by rw [← h.parentOf, ← regrouped.parentOf]; rfl
      counts := fun p c => by
        rw [← regrouped.childrenOf, ← regrouped.parentOf] at counts
        exact counts p c
      types := fun v ne => by
        rw [← h.typeOf ne, regrouped.frame]
        rfl
      states := fun v ne => by
        rw [← h.stateOf ne, regrouped.frame]
        rfl
      windows := fun a => by
        rw [← h.windows, regrouped.frame]
        rfl
      mru := by
        change u.mruActiveWindows = _
        rw [regrouped.frame, frame]
      focus := by
        change u.focus = _
        rw [regrouped.frame, frame]
      fullscreen := fun v => by
        have base : u.fullscreenSurfaces = s.fullscreenSurfaces := by rw [regrouped.frame, frame]
        have state : u.stateOf w = some info.state := by
          rw [← h.ownState, regrouped.frame]
          rfl
        change v ∈ (if _ then _ else _ : Model).fullscreenSurfaces ↔
          _ ∨ v = w ∧ u.stateOf w = _
        rw [state, ← base]
        by_cases eq : info.state = .fullscreen
        · by_cases member : w ∈ u.fullscreenSurfaces <;> by_cases self : v = w <;>
            simp [eq, insertFullscreen, member, self]
        · simp [eq]
      sight := fun v ne => by
        rw [← h.surfaces v ne, ← regrouped.surface?]
        rfl
      unposted := ⟨info.state, by
        rw [← h.ownState, regrouped.frame]
        rfl, by
        rw [← h.unposted, ← regrouped.surface?]
        rfl⟩
      living := by
        change u.liveWorkspaces = _
        rw [regrouped.frame, frame]
      dead := by
        change u.deadWorkspaces = _
        rw [regrouped.frame, frame]
      quiet := by
        refine ⟨told ++ events, ?_, ?_⟩
        · intro event member
          rcases List.mem_append.mp member with first | second
          · exact toldQuiet event first
          · exact quiet event second
        · change u.log ++ events = _
          rw [toldLog, List.append_assoc, frame]
      grouped := by
        refine ⟨joined, fun k v => ?_, fun k v p link => closed k v p ?_, fun k => ?_,
          fun k v new => ?_⟩
        · change (k, v) ∈ u.workspacesToWindows ↔ _
          rw [pairs, frame]
        · rw [← regrouped.parentOf]
          exact link
        · rw [own]
          simp only [h.containing]
        · exact regrouped.managed.mpr (known k v new) }

end Attached

/-- What the end of `add_surface` says of the new window. -/
def Event.announces (w : Window) (event : Event) : Prop :=
  event = .adviseNewWindow w ∨ ∃ placement, event = .placedRelative w placement

theorem Event.quiet_of_announces {event : Event} (announces : event.announces w) :
    event.quiet := by
  rcases announces with rfl | ⟨placement, rfl⟩ <;> rfl

/-- The end of `add_surface`, from the fullscreen set on. -/
private theorem ensures_announce {t : Model} {parent : Option Window} {full : Prop}
    [Decidable full] {hinted : Prop} [Decidable hinted] {post : Unit → Model → Prop}
    {error : Failure → Model → Prop} {short : Prop}
    (done : ∀ events : List Event, (∀ event ∈ events, event.announces w) →
      post () ((if full then t.insertFullscreen w else t).emits events)) :
    Ensures (do
      onlyIf full (update (·.insertFullscreen w))
      emit (.adviseNewWindow w)
      let s ← state
      whenSome (s.lock parent) fun parent =>
        onlyIf hinted do
          let origin := s.topLeft parent
          emit (.placedRelative w
            ⟨⟨(s.topLeft w).x - origin.x, (s.topLeft w).y - origin.y⟩, s.size w⟩)) t
      post error short := by
  have last (u : Model) (eq : (if full then t.insertFullscreen w else t) = u) :
      Ensures (do
        emit (.adviseNewWindow w)
        let s ← state
        whenSome (s.lock parent) fun parent =>
          onlyIf hinted do
            let origin := s.topLeft parent
            emit (.placedRelative w
              ⟨⟨(s.topLeft w).x - origin.x, (s.topLeft w).y - origin.y⟩, s.size w⟩)) u
        post error short := by
    rw [eq] at done
    rw [ensures_bind, ensures_emit, ensures_bind, ensures_state, ensures_whenSome]
    have told := done [.adviseNewWindow w] (by simp [Event.announces])
    refine ⟨fun p _ => ?_, fun _ => told⟩
    rw [ensures_onlyIf]
    refine ⟨fun _ => ?_, fun _ => told⟩
    have both (place : Rectangle) :=
      done [.adviseNewWindow w, .placedRelative w place] (by simp [Event.announces])
    simpa [emits, Model.emit] using both _
  rw [ensures_bind, ensures_onlyIf]
  exact ⟨fun yes => last _ (if_pos yes), fun no => last _ (if_neg no)⟩

/-- Whether `add_surface` finds the session and a place for the window. -/
def Model.Accepts (s : Model) (session : Application) (params : SurfaceCreationParameters) :
    Prop :=
  ∃ app spec, s.app? session = some app ∧
    s.placeNewSurface app (.ofCreationParameters params) = .ok spec

/-- `add_surface` refuses the window, or attaches it; what is left then is to group its tree
and to announce it. -/
theorem ensures_addSurface_attached (integrity : s.Integrity) {session : Application}
    {params : SurfaceCreationParameters} {surface : Nat} (fresh : ¬s.Managed ⟨session, surface⟩)
    (apart : params.parent ≠ some ⟨session, surface⟩) {post : Unit → Model → Prop}
    {error : Failure → Model → Prop} {short : Prop}
    (refused : ∀ failure, ¬s.Accepts session params → error failure s)
    (grouping : s.Accepts session params →
      ∀ info u, Attached ⟨session, surface⟩ info (s.lock params.parent) s u →
      (whenSome (s.lock params.parent) fun parent =>
        forEach (addTreeToWorkspace fuel (some ⟨session, surface⟩))
          (u.workspacesContaining parent)).Ensures u
        (fun _ t => ∀ events : List Event, (∀ event ∈ events, event.announces ⟨session, surface⟩) →
          post () ((if info.state = .fullscreen then t.insertFullscreen ⟨session, surface⟩
            else t).emits events)) error short) :
    (addSurface fuel session params surface).Ensures s post error short := by
  rw [addSurface, ensures_bind, ensures_infoForSession]
  refine ⟨fun sessionInfo found => ?_, fun gone => refused _ fun ⟨_, _, found, _⟩ => ?_⟩
  rotate_left
  · simp [gone] at found
  rw [ensures_bind, ensures_state, ensures_bind, ensures_ofExcept]
  refine ⟨fun spec placing => ?_, fun failure failed => refused _ fun ⟨_, _, found', placing⟩ => ?_⟩
  rotate_left
  · obtain rfl := Option.some.inj (found.symm.trans found')
    rw [failed] at placing
    contradiction
  have grouping := grouping ⟨sessionInfo, spec, found, placing⟩
  have placed := placeNewSurface_ok placing
  obtain ⟨info, made, orphan, childless, stated⟩ := ofSpecification_placed placed
  generalize named : (⟨session, surface⟩ : Window) = w at fresh apart grouping ⊢
  have ownSession : w.application = session := by rw [← named]
  rw [placed.parent, Option.getD_some]
  rw [ensures_bind, ensures_update, ensures_bind, made, ensures_ofExcept]
  refine ⟨fun info' eq => ?_, by simp⟩
  obtain rfl := Except.ok.inj eq
  generalize begun : (s.createSurface w spec).setInfo w info = s₁
  rw [ensures_bind, ensures_setInfo, begun]
  have infos (v : Window) : s₁.info? v = if v = w then some info else s.info? v := by
    rw [← begun, info?_setInfo]
    rfl
  have surfaces (v : Window) (ne : v ≠ w) : s₁.surface? v = s.surface? v := by
    rw [← begun]
    simp [surface?, Model.setInfo, createSurface, ne]
  have drawn : (s₁.surface? w).map Surface.sight = some (info.state, false, false) := by
    rw [← begun, stated]
    simp [surface?, Model.setInfo, createSurface, Surface.sight]
  have frame : s₁ = { s with windowInfo := s₁.windowInfo, scene := s₁.scene } := by
    rw [← begun]
    rfl
  have locked : s₁.lock params.parent = s.lock params.parent := by
    cases asked : params.parent with
    | none => rfl
    | some p =>
      have ne : p ≠ w := by
        rintro rfl
        exact apart asked
      have same : s₁.Live p ↔ s.Live p := by simp [Live, surfaces p ne]
      by_cases live : s.Live p <;> simp [lock, same, live]
  have known (p : Window) (target : s.lock params.parent = some p) : s.Managed p :=
    (integrity.live p).mp (lock_eq_some.mp target).2
  have here : s₁.info? w = some info := by simp [infos]
  have adopted : (adopt w params.parent).Ensures s₁ _ (fun _ _ => False) short :=
    ensures_adopt here orphan apart (fun p target => ?_) ⟨sessionInfo, ?_⟩
  rotate_left
  · rw [locked] at target
    have ne : p ≠ w := by
      rintro rfl
      exact apart (lock_eq_some.mp target).1
    simpa [Managed, infos, ne] using known p target
  · rw [ownSession, frame]
    exact found
  apply adopted.bind_throwless
  intro _ s₂ after
  rcases after with ⟨frame', infos', windows⟩
  rw [locked] at infos'
  have surfaces' (v : Window) : s₂.surface? v = s₁.surface? v := by
    rw [frame']
    rfl
  have attached : Attached w info (s.lock params.parent) s s₂ :=
    { fresh, known, childless
      frame := by rw [frame', frame]
      infos := fun v => by
        rw [infos', infos]
        by_cases self : v = w <;> simp [self]
      windows := fun a => by
        rw [windows, frame]
        rfl
      surfaces := fun v ne => (surfaces' v).trans (surfaces v ne)
      unposted := by rw [surfaces', drawn] }
  have own : s₂.info? w = some { info with parent := s.lock params.parent } := by
    simp [attached.infos]
  rw [ensures_bind, ensures_infoFor_here own, ensures_bind, ensures_state, ensures_bind]
  exact (grouping info s₂ attached).imp (fun _ _ done => ensures_announce done)

theorem ensures_addSurface (integrity : s.Integrity) {session : Application}
    {params : SurfaceCreationParameters} {surface : Nat} (fresh : ¬s.Managed ⟨session, surface⟩)
    (apart : params.parent ≠ some ⟨session, surface⟩) :
    (addSurface fuel session params surface).Ensures s
      (fun _ t => Added ⟨session, surface⟩ (s.lock params.parent) s t) (fun _ t => t = s)
      True := by
  refine ensures_addSurface_attached integrity fresh apart (fun _ _ => rfl)
    fun _ info u attached => ?_
  rw [ensures_whenSome]
  constructor
  · intro p target
    have live : u.Live ⟨session, surface⟩ := attached.live.mpr (.inl rfl)
    refine (ensures_joinAll (attached.linked integrity.toLinked) live _).mono ?_
      (fun _ _ h => h.elim) fun _ => trivial
    rintro _ t ⟨regrouped, joined, pairs, closed, joins, managed⟩ events announces
    refine attached.added integrity.toLinked regrouped ⟨joined, pairs, closed, fun k => ?_, managed⟩
      events fun event member => Event.quiet_of_announces (announces event member)
    rw [joins, target]
    simp
  · intro none events announces
    refine attached.added integrity.toLinked .refl ⟨fun _ _ => False, by simp, by simp, fun k => ?_,
      by simp⟩ events fun event member => Event.quiet_of_announces (announces event member)
    simp [none]

end Miral
