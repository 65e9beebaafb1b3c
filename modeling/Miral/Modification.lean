import Miral.Search
import Miral.Motion

/-! The phases of `modify_window`: the temporary record, the swap with the links it moves,
the attributes, the geometry, and the change of state with the focus it moves. -/
namespace Miral

open Program Prog Forest

/-- What decides whether a surface is visible. -/
def Surface.sight (surface : Surface) : WindowState × Bool × Bool :=
  (surface.state, surface.hidden, surface.posted)

namespace Model

variable {s t u : Model} {w v p c : Window} {info tmp : WindowInfo}

/-- `t` has the windows, states, lists, focus and visibility of `s`, and reports nothing
about the focus. Links, types, geometry and the remaining attributes may differ. -/
structure Undisturbed (s t : Model) : Prop where
  frame : t = { s with windowInfo := t.windowInfo, scene := t.scene, log := t.log }
  managed : ∀ w, t.Managed w ↔ s.Managed w
  states : ∀ w, t.stateOf w = s.stateOf w
  sight : ∀ w, (t.surface? w).map Surface.sight = (s.surface? w).map Surface.sight
  quiet : ∃ events, (∀ event ∈ events, event.quiet) ∧ t.log = s.log ++ events

namespace Undisturbed

theorem refl : Undisturbed s s :=
  ⟨rfl, fun _ => Iff.rfl, fun _ => rfl, fun _ => rfl, [], by simp, by simp⟩

theorem trans (h : Undisturbed s t) (h' : Undisturbed t u) : Undisturbed s u where
  frame := by rw [h'.frame, h.frame]
  managed w := (h'.managed w).trans (h.managed w)
  states w := (h'.states w).trans (h.states w)
  sight w := (h'.sight w).trans (h.sight w)
  quiet := quiet_trans h.quiet h'.quiet

theorem of_moved (h : Moved w s t) : Undisturbed s t where
  frame := by rw [h.frame]
  managed := h.sameStructure.managed
  states := h.sameStructure.states
  sight v := by
    obtain ⟨rect, eq⟩ := h.inside v
    rw [eq]
    cases s.surface? v <;> rfl
  quiet := h.quiet

theorem configure {f : Surface → Surface} (same : ∀ surface, (f surface).sight = surface.sight) :
    Undisturbed s (s.configure w f) where
  frame := by rw [configure_eq]
  managed _ := managed_configure f
  states v := by rw [configure_eq]; rfl
  sight v := by
    by_cases eq : v = w
    · subst eq
      cases here : s.surface? v <;> simp [here, same]
    · simp [eq]
  quiet := ⟨[], by simp, by simp⟩

theorem setInfo (here : s.info? w = some info) (state : tmp.state = info.state) :
    Undisturbed s (s.setInfo w tmp) where
  frame := rfl
  managed v := by
    rw [managed_setInfo, or_iff_right_of_imp]
    rintro rfl
    exact managed_iff.mpr ⟨info, here⟩
  states v := by
    by_cases eq : v = w
    · simp [eq, state, stateOf_eq here]
    · simp [eq]
  sight _ := rfl
  quiet := ⟨[], by simp, by simp [Model.setInfo]⟩

variable (h : Undisturbed s t)

include h

theorem windows (a : Application) : t.windowsOf a = s.windowsOf a := by rw [h.frame]; rfl

theorem fullscreen : t.fullscreenSurfaces = s.fullscreenSurfaces := by rw [h.frame]

theorem workspaces : t.workspacesToWindows = s.workspacesToWindows := by rw [h.frame]

theorem living : t.liveWorkspaces = s.liveWorkspaces := by rw [h.frame]

theorem dead : t.deadWorkspaces = s.deadWorkspaces := by rw [h.frame]

theorem mru : t.mruActiveWindows = s.mruActiveWindows := by rw [h.frame]

theorem displays : t.displays = s.displays := by rw [h.frame]

theorem displayLayout : t.displayLayout = s.displayLayout := by rw [h.frame]

theorem live : t.Live w ↔ s.Live w := by
  have same := congrArg Option.isSome (h.sight w)
  simpa [Live] using same

theorem lock {hint : Option Window} : t.lock hint = s.lock hint := by
  cases hint with
  | none => rfl
  | some w => simp only [Model.lock, h.live]

theorem visible : t.visible w = s.visible w := by
  have same := h.sight w
  unfold Model.visible
  cases here : s.surface? w <;> cases there : t.surface? w <;>
    simp_all [Surface.sight, Surface.visible]

theorem activeWindow : t.activeWindow = s.activeWindow := by
  have same : t.visible = s.visible := funext fun _ => h.visible
  rw [Model.activeWindow, Model.activeWindow, h.mru, same]

end Undisturbed

theorem Integrity.undisturbed (integrity : s.Integrity) (same : Undisturbed s t)
    (children : ∀ p c, (t.childrenOf p).count c = if t.parentOf c = some p then 1 else 0) :
    t.Integrity where
  live w := by rw [same.live, same.managed, integrity.live]
  children := children
  windows a w := by simp only [same.windows, same.managed, integrity.windows]
  mru w member := (same.managed w).mpr (integrity.mru w (same.mru ▸ member))
  fullscreen w := by rw [same.fullscreen, same.states, integrity.fullscreen]
  workspaces pair member :=
    (same.managed _).mpr (integrity.workspaces pair (same.workspaces ▸ member))
  retired := by
    rw [same.dead, same.living]
    exact integrity.retired

end Model

open Model

variable {s : Model} {w : Window} {info tmp : WindowInfo} {fuel : Nat}
  {modifications : WindowSpecification}

/-- The temporary record as the request fills it in, before the checks of its type. -/
def WindowInfo.requestedBy (info : WindowInfo) (modifications : WindowSpecification) : WindowInfo :=
  { info.copyIfSet modifications with parent := modifications.parent.getD info.parent }

/-- The checks of `modify_window` accept the request and leave the temporary record `tmp`. -/
structure Requested (s : Model) (modifications : WindowSpecification) (info tmp : WindowInfo) :
    Prop where
  asked : ∀ weak, modifications.parent = some weak → ∃ p, weak = some p ∧ s.Managed p
  checked : info.checkMorph (info.requestedBy modifications) modifications.parent.isSome
    (s.lock (info.requestedBy modifications).parent).isSome = .ok tmp

theorem requested_placed {topLeft : Option Point} {size : Option Size} :
    Requested s { modifications with topLeft := topLeft, size := size } info tmp ↔
      Requested s modifications info tmp :=
  ⟨fun requested => ⟨requested.asked, requested.checked⟩,
    fun requested => ⟨requested.asked, requested.checked⟩⟩

theorem WindowInfo.checkMorph_ok {setsParent hasParent : Bool} {result : WindowInfo}
    (ok : info.checkMorph tmp setsParent hasParent = .ok result) :
    result = tmp ∨ result = { tmp with parent := none } ∧ setsParent = false ∧
      tmp.type ≠ info.type ∧ tmp.type.mustNotHaveParent := by
  unfold checkMorph at ok
  split at ok
  · exact .inl (Except.ok.inj ok).symm
  · rename_i changed
    split at ok
    · contradiction
    · split at ok
      · rename_i orphan
        split at ok
        · contradiction
        · rename_i keeps
          exact .inr ⟨(Except.ok.inj ok).symm, by simpa using keeps, Ne.symm changed, orphan⟩
      · split at ok
        · split at ok
          · exact .inl (Except.ok.inj ok).symm
          · contradiction
        · exact .inl (Except.ok.inj ok).symm

namespace Requested

variable (requested : Requested s modifications info tmp)

include requested

theorem copied : tmp = { info.copyIfSet modifications with parent := tmp.parent } := by
  rcases WindowInfo.checkMorph_ok requested.checked with rfl | ⟨rfl, -⟩ <;> rfl

theorem children : tmp.children = info.children := by rw [requested.copied]; rfl

theorem state : tmp.state = info.state := by rw [requested.copied]; rfl

theorem linked {weak : WeakSurface} (asks : modifications.parent = some weak) :
    ∃ p, weak = some p ∧ s.Managed p ∧ tmp.parent = some p := by
  obtain ⟨p, rfl, managed⟩ := requested.asked weak asks
  refine ⟨p, rfl, managed, ?_⟩
  rcases WindowInfo.checkMorph_ok requested.checked with rfl | ⟨-, keeps, -⟩
  · simp [WindowInfo.requestedBy, asks]
  · simp [asks] at keeps

theorem kept (unset : modifications.parent = none) : tmp.parent = info.parent ∨
    tmp.parent = none ∧ tmp.type ≠ info.type ∧ tmp.type.mustNotHaveParent := by
  rcases WindowInfo.checkMorph_ok requested.checked with rfl | ⟨rfl, -, changed, orphan⟩
  · exact .inl (by simp [WindowInfo.requestedBy, unset])
  · exact .inr ⟨rfl, changed, orphan⟩

theorem parent_managed (integrity : s.Integrity) (here : s.info? w = some info) {p : Window}
    (link : tmp.parent = some p) : s.Managed p := by
  cases asks : modifications.parent with
  | some weak =>
    obtain ⟨q, -, managed, eq⟩ := requested.linked asks
    obtain rfl := Option.some.inj (eq.symm.trans link)
    exact managed
  | none =>
    rcases requested.kept asks with same | ⟨gone, -⟩
    · exact integrity.managed_parent ((parentOf_eq here).trans (same.symm.trans link))
    · simp [gone] at link

end Requested

/-- The checks of `modify_window` run on a copy. -/
theorem ensures_requestedInfo {short : Prop} (here : s.info? w = some info) :
    (requestedInfo w modifications).Ensures s
      (fun tmp t => t = s ∧ Requested s modifications info tmp)
      (fun _ t => t = s ∧ ∀ tmp, ¬Requested s modifications info tmp) short := by
  rw [requestedInfo, ensures_bind, ensures_infoFor_here here]
  have check (filled : WindowInfo) (eq : filled = info.requestedBy modifications)
      (asked : ∀ weak, modifications.parent = some weak → ∃ p, weak = some p ∧ s.Managed p) :
      Ensures (state >>= fun s => ofExcept (info.checkMorph filled modifications.parent.isSome
        (s.lock filled.parent).isSome)) s (fun tmp t => t = s ∧ Requested s modifications info tmp)
        (fun _ t => t = s ∧ ∀ tmp, ¬Requested s modifications info tmp) short := by
    subst eq
    rw [ensures_bind, ensures_state, ensures_ofExcept]
    refine ⟨fun tmp ok => ⟨rfl, asked, ok⟩, fun failure error => ⟨rfl, fun tmp requested => ?_⟩⟩
    have := error.symm.trans requested.checked
    contradiction
  rw [ensures_bind]
  cases asks : modifications.parent with
  | none =>
    rw [copyParent, ensures_pure, ← asks]
    refine check _ ?_ (by simp [asks])
    simp [WindowInfo.requestedBy, asks, WindowInfo.copyIfSet]
  | some weak =>
    cases weak with
    | none =>
      refine ⟨rfl, fun tmp requested => ?_⟩
      obtain ⟨p, null, -⟩ := requested.asked none asks
      contradiction
    | some p =>
      rw [copyParent, ensures_bind, infoForWeak, ensures_bind, ensures_infoFor]
      refine ⟨fun parentInfo there => ?_, fun gone => ⟨rfl, fun tmp requested => ?_⟩⟩
      · rw [ensures_pure, ensures_pure, ← asks]
        refine check _ ?_ fun weak eq => ?_
        · simp [WindowInfo.requestedBy, asks]
        · obtain rfl := Option.some.inj (asks.symm.trans eq)
          exact ⟨p, rfl, managed_iff.mpr ⟨parentInfo, there⟩⟩
      · obtain ⟨q, same, managed⟩ := requested.asked _ asks
        obtain rfl := Option.some.inj same
        simp [Managed, gone] at managed

/-- The children of `v` after a window has moved from one parent to another. -/
def Model.relinked (s : Model) (w : Window) (oldParent newParent : Option Window) (v : Window) :
    List Window :=
  let removed := if newParent ≠ oldParent ∧ oldParent = some v then (s.childrenOf v).erase w
    else s.childrenOf v
  if newParent ≠ oldParent ∧ newParent = some v then removed ++ [w] else removed

theorem Model.count_relinked {oldParent newParent : Option Window} {v c : Window}
    (own : s.parentOf w = oldParent)
    (count : (s.childrenOf v).count c = if s.parentOf c = some v then 1 else 0) :
    (s.relinked w oldParent newParent v).count c =
      if (if c = w then newParent else s.parentOf c) = some v then 1 else 0 := by
  unfold relinked
  by_cases same : newParent = oldParent
  · by_cases eq : c = w
    · subst eq
      simp [same, count, own]
    · simp [same, eq, count]
  · by_cases eq : c = w
    · subst eq
      rw [own] at count
      by_cases old : oldParent = some v
      · have other : newParent ≠ some v := fun new => same (new.trans old.symm)
        simp_all
      · by_cases new : newParent = some v <;> simp_all
    · have apart : ¬w = c := Ne.symm eq
      by_cases old : oldParent = some v <;> by_cases new : newParent = some v <;>
        simp_all [List.count_erase_of_ne]

theorem ensures_relink {oldParent newParent : Option Window} {short : Prop}
    (oldManaged : ∀ p, oldParent = some p → s.Managed p ∧ s.Live p)
    (newManaged : ∀ p, newParent = some p → s.Managed p ∧ s.Live p) :
    (relink w oldParent newParent).Ensures s
      (fun _ t => t = { s with windowInfo := t.windowInfo } ∧
        (∀ v, t.info? v = (s.info? v).map fun info => { info with children := t.childrenOf v }) ∧
        ∀ v, t.childrenOf v = s.relinked w oldParent newParent v)
      (fun _ _ => False) short := by
  have self (t : Model) (v : Window) :
      t.info? v = (t.info? v).map fun info => { info with children := t.childrenOf v } := by
    cases here : t.info? v with
    | none => rfl
    | some info => simp [childrenOf_eq here]
  have change (t : Model) (p : Window) (managed : t.Managed p)
      (f : WindowInfo → WindowInfo) (children : ∀ info, f info =
        { info with children := (f info).children }) :
      (modifyInfo p f).Ensures t
        (fun _ u => u = { t with windowInfo := u.windowInfo } ∧
          (∀ v, u.info? v = (t.info? v).map fun info => { info with children := u.childrenOf v }) ∧
          ∃ info, t.info? p = some info ∧ ∀ v, u.childrenOf v =
            if v = p then (f info).children else t.childrenOf v)
        (fun _ _ => False) short := by
    obtain ⟨info, here⟩ := managed_iff.mp managed
    rw [ensures_modifyInfo_here here]
    refine ⟨rfl, fun v => ?_, info, here, fun v => by simp⟩
    by_cases eq : v = p
    · subst eq
      simpa [here] using children info
    · simpa [eq] using self t v
  simp only [relink, ensures_onlyIf, ensures_bind, ensures_state]
  constructor
  swap
  · intro same
    refine ⟨trivial, self s, fun v => ?_⟩
    simp only [not_not.mp same, relinked, ne_eq, not_true_eq_false, false_and, ↓reduceIte]
  intro moved
  have adopt (t : Model) (frame : t = { s with windowInfo := t.windowInfo })
      (infos : ∀ v, t.info? v = (s.info? v).map fun info =>
        { info with children := t.childrenOf v })
      (removed : ∀ v, t.childrenOf v =
        if oldParent = some v then (s.childrenOf v).erase w else s.childrenOf v) :
      (whenSome (s.lock newParent) fun parent => modifyInfo parent (·.addChild w)).Ensures t
        (fun _ u => u = { s with windowInfo := u.windowInfo } ∧
          (∀ v, u.info? v = (s.info? v).map fun info =>
            { info with children := u.childrenOf v }) ∧
          ∀ v, u.childrenOf v = s.relinked w oldParent newParent v)
        (fun _ _ => False) short := by
    cases new : newParent with
    | none =>
      refine ⟨frame, infos, fun v => ?_⟩
      rw [new] at moved
      simp [relinked, moved, removed v]
    | some p =>
      obtain ⟨managed, live⟩ := newManaged p new
      rw [lock_some live]
      have managed' : t.Managed p := by
        simpa [Managed, infos p] using managed
      refine (change t p managed' (·.addChild w) fun _ => rfl).imp ?_
      intro _ u after
      rcases after with ⟨frame', infos', info, here, children⟩
      refine ⟨by rw [frame', frame], fun v => ?_, fun v => ?_⟩
      · rw [infos', infos]
        cases s.info? v <;> rfl
      · rw [new] at moved
        rw [children, relinked]
        by_cases eq : v = p
        · subst eq
          simp [moved, WindowInfo.addChild, ← removed v, childrenOf_eq here]
        · simp [eq, removed v, moved, Ne.symm eq]
  cases old : oldParent with
  | none =>
    refine (adopt s rfl (self s) fun v => by simp [old]).imp ?_
    simp [old]
  | some p =>
    obtain ⟨managed, live⟩ := oldManaged p old
    rw [lock_some live]
    refine (change s p managed (·.removeChild w) fun _ => rfl).imp ?_
    intro _ u after
    rcases after with ⟨frame, infos, info, here, children⟩
    rw [← old]
    apply adopt u frame infos
    intro v
    rw [children, old]
    by_cases eq : v = p
    · subst eq
      simp [WindowInfo.removeChild, childrenOf_eq here]
    · simp [eq, Ne.symm eq]

/-- A surface learns its type only when the type of its record changes. -/
def Model.retyped (s : Model) (w : Window) (type : WindowType) (v : Window) (surface : Surface) :
    Surface :=
  if v = w ∧ s.typeOf w ≠ some type then { surface with type } else surface

theorem Model.sight_retyped {type : WindowType} {v : Window} {surface : Surface} :
    (s.retyped w type v surface).sight = surface.sight := by
  unfold retyped
  split <;> rfl

theorem Model.rect_retyped {type : WindowType} {v : Window} {surface : Surface} :
    (s.retyped w type v surface).topLeft = surface.topLeft ∧
      (s.retyped w type v surface).size = surface.size := by
  unfold retyped
  split <;> exact ⟨rfl, rfl⟩

/-- `t` is `s` with the record of `w` swapped for `tmp`, and the links that go with it. -/
structure Swapped (w : Window) (tmp : WindowInfo) (s t : Model) : Prop where
  frame : t = { s with windowInfo := t.windowInfo, scene := t.scene }
  undisturbed : Undisturbed s t
  infos : ∀ v, t.info? v = (if v = w then some tmp else s.info? v).map fun info =>
    { info with children := t.childrenOf v }
  surfaces : ∀ v, t.surface? v = (s.surface? v).map (s.retyped w tmp.type v)
  counts : ∀ p c, (t.childrenOf p).count c = if t.parentOf c = some p then 1 else 0
  unlinked : tmp.parent = s.parentOf w → ∀ v, t.childrenOf v = s.childrenOf v

namespace Swapped

variable {t : Model} {v : Window} (h : Swapped w tmp s t)

include h

theorem parents : t.parentOf v = if v = w then tmp.parent else s.parentOf v := by
  rw [parentOf, h.infos]
  by_cases eq : v = w
  · simp [eq]
  · cases here : s.info? v <;> simp [eq, parentOf, here]

theorem types : t.typeOf v = if v = w then some tmp.type else s.typeOf v := by
  rw [typeOf, h.infos]
  by_cases eq : v = w
  · simp [eq]
  · cases here : s.info? v <;> simp [eq, typeOf, here]

theorem integrity (integrity : s.Integrity) : t.Integrity :=
  integrity.undisturbed h.undisturbed h.counts

end Swapped

theorem ensures_swapInfo (integrity : s.Integrity) (here : s.info? w = some info)
    (requested : Requested s modifications info tmp) {short : Prop} :
    (swapInfo w tmp).Ensures s (fun _ t => Swapped w tmp s t) (fun _ _ => False) short := by
  have swapped (t : Model) (frame : t = { s with windowInfo := t.windowInfo, scene := t.scene })
      (infos : ∀ v, t.info? v = if v = w then some tmp else s.info? v)
      (surfaces : ∀ v, t.surface? v = (s.surface? v).map (s.retyped w tmp.type v)) :
      (relink w info.parent tmp.parent).Ensures t (fun _ u => Swapped w tmp s u)
        (fun _ _ => False) short := by
    have managed (p : Window) (known : s.Managed p) : t.Managed p ∧ t.Live p := by
      obtain ⟨parentInfo, there⟩ := managed_iff.mp known
      constructor
      · by_cases eq : p = w <;> simp [Managed, infos, eq, there]
      · obtain ⟨surface, drawn⟩ := live_iff.mp ((integrity.live p).mpr known)
        simp [Live, surfaces, drawn]
    refine (ensures_relink (fun p link => managed p ?_) fun p link => managed p ?_).imp ?_
    · exact integrity.managed_parent ((parentOf_eq here).trans link)
    · exact requested.parent_managed integrity here link
    · intro _ u after
      rcases after with ⟨frame', infos', children⟩
      have infoEq (v : Window) : u.info? v = (if v = w then some tmp else s.info? v).map
          fun info => { info with children := u.childrenOf v } := by
        rw [infos', infos]
      have drawn (v : Window) : u.surface? v = t.surface? v := by rw [frame']; rfl
      have undisturbed : Undisturbed s u := by
        have states (v : Window) : u.stateOf v = s.stateOf v := by
          rw [stateOf, infoEq]
          by_cases eq : v = w
          · simp [eq, requested.state, stateOf_eq here]
          · cases there : s.info? v <;> simp [eq, stateOf, there]
        have whole : u = { s with windowInfo := u.windowInfo, scene := t.scene } := by
          rw [frame', frame]
        exact
          { frame := by rw [whole]
            managed := fun v => by
              simpa [Managed, stateOf] using congrArg Option.isSome (states v)
            states
            sight := fun v => by
              rw [drawn, surfaces]
              cases s.surface? v <;> simp [sight_retyped]
            quiet := ⟨[], by simp, by rw [whole, List.append_nil]⟩ }
      have base (v : Window) : t.childrenOf v = s.childrenOf v := by
        unfold childrenOf
        rw [infos]
        by_cases eq : v = w
        · simp [eq, here, requested.children]
        · simp [eq]
      refine ⟨by rw [frame', frame], undisturbed, infoEq, fun v => by rw [drawn, surfaces],
        fun p c => ?_, fun same v => ?_⟩
      · have link : u.parentOf c = if c = w then tmp.parent else s.parentOf c := by
          rw [parentOf, infoEq]
          by_cases eq : c = w
          · simp [eq]
          · cases there : s.info? c <;> simp [eq, parentOf, there]
        have same : t.relinked w info.parent tmp.parent p =
            s.relinked w info.parent tmp.parent p := by
          simp only [relinked, base]
        rw [children, link, same]
        exact count_relinked (parentOf_eq here) (integrity.children p c)
      · rw [parentOf_eq here] at same
        simp [children, relinked, same, base]
  rw [swapInfo, ensures_bind, ensures_infoFor_here here]
  simp only [ensures_bind, ensures_setInfo, ensures_onlyIf, ensures_configure]
  constructor
  · intro changed
    apply swapped _ (by rw [configure_eq]; rfl) (fun v => by simp)
    intro v
    by_cases eq : v = w
    · cases drawn : s.surface? w <;>
        simp [eq, drawn, retyped, typeOf_eq here, Ne.symm changed]
    · cases drawn : s.surface? v <;> simp [eq, drawn, retyped]
  · intro same
    apply swapped _ rfl (fun v => by simp)
    intro v
    cases drawn : s.surface? v <;>
      simp [drawn, retyped, typeOf_eq here, (not_not.mp same).symm]

/-- `t` differs from `s` in the geometry and in attributes without a further role. -/
structure Retouched (s t : Model) : Prop where
  undisturbed : Undisturbed s t
  sameStructure : SameStructure s t
  types : ∀ v, t.typeOf v = s.typeOf v

namespace Retouched

variable {t u : Model} {v : Window}

theorem refl : Retouched s s := ⟨.refl, .refl, fun _ => rfl⟩

theorem of_moved (h : Moved w s t) : Retouched s t :=
  ⟨.of_moved h, h.sameStructure, fun v => by rw [h.frame]; rfl⟩

theorem configure {f : Surface → Surface} (same : ∀ surface, (f surface).sight = surface.sight) :
    Retouched s (s.configure w f) :=
  ⟨.configure same, .configure f, fun v => by rw [configure_eq]; rfl⟩

theorem setInfo (here : s.info? w = some info) (parent : tmp.parent = info.parent)
    (children : tmp.children = info.children) (state : tmp.state = info.state)
    (type : tmp.type = info.type) : Retouched s (s.setInfo w tmp) := by
  refine ⟨.setInfo here state, .setInfo here parent children state, fun v => ?_⟩
  by_cases eq : v = w
  · simp [eq, type, typeOf_eq here]
  · simp [eq]

theorem trans (h : Retouched s t) (h' : Retouched t u) : Retouched s u :=
  ⟨h.undisturbed.trans h'.undisturbed, h.sameStructure.trans h'.sameStructure,
    fun v => (h'.types v).trans (h.types v)⟩

theorem integrity (h : Retouched s t) (integrity : s.Integrity) : t.Integrity :=
  integrity.sameStructure h.sameStructure (h.undisturbed.mru ▸ integrity.mru)

end Retouched

def Surface.adorned (surface : Surface) (modifications : WindowSpecification) : Surface :=
  { surface with
    name := modifications.name.getD surface.name
    inputRegion := modifications.inputShape.getD surface.inputRegion }

theorem ensures_updateSurface {short : Prop} :
    (updateSurface w modifications).Ensures s (fun _ t => Retouched s t ∧
      (∀ v, t.info? v = s.info? v) ∧ ∀ v, t.surface? v = (s.surface? v).map fun surface =>
        if v = w then surface.adorned modifications else surface) (fun _ _ => False) short := by
  have second (t : Model) (touched : Retouched s t) (infos : ∀ v, t.info? v = s.info? v)
      (named : ∀ v, t.surface? v = (s.surface? v).map fun surface =>
        if v = w then { surface with name := modifications.name.getD surface.name }
        else surface) :
      (whenSome modifications.inputShape fun inputRegion =>
        configure w ({ · with inputRegion })).Ensures t (fun _ u => Retouched s u ∧
          (∀ v, u.info? v = s.info? v) ∧ ∀ v, u.surface? v = (s.surface? v).map fun surface =>
            if v = w then surface.adorned modifications else surface) (fun _ _ => False) short := by
    rw [ensures_whenSome]
    constructor
    · intro inputRegion asks
      refine ⟨touched.trans (.configure fun _ => rfl), fun v => by simp [infos], fun v => ?_⟩
      by_cases eq : v = w
      · cases drawn : s.surface? w <;> simp [eq, named, drawn, Surface.adorned, asks]
      · simp [eq, named]
    · intro unset
      refine ⟨touched, infos, fun v => ?_⟩
      simp [named, Surface.adorned, unset]
  rw [updateSurface, ensures_bind, ensures_whenSome]
  constructor
  · intro name asks
    refine second _ (.configure fun _ => rfl) (fun v => by simp) fun v => ?_
    by_cases eq : v = w
    · simp [eq, asks]
    · simp [eq]
  · intro unset
    apply second s .refl (fun _ => rfl)
    intro v
    cases drawn : s.surface? v <;> simp [unset]

/-- The record after its restore rectangle has been brought up to date. -/
def Model.cachedInfo (s : Model) (w : Window) (info : WindowInfo) (newState : Option WindowState) :
    WindowInfo :=
  match newState with
  | some newState => if info.state ≠ newState then
      { info with restoreRect := info.currentRestoreRect (s.rect w) } else info
  | none => info

theorem Model.cachedInfo_eq (s : Model) (w : Window) (info : WindowInfo)
    (newState : Option WindowState) :
    ∃ rect, s.cachedInfo w info newState = { info with restoreRect := rect } := by
  unfold cachedInfo
  split
  · split
    · exact ⟨_, rfl⟩
    · exact ⟨info.restoreRect, rfl⟩
  · exact ⟨info.restoreRect, rfl⟩

theorem ensures_cacheRestoreRect {short : Prop} (here : s.info? w = some info) :
    (cacheRestoreRect w modifications).Ensures s (fun _ t => Retouched s t ∧
        (∀ v, t.info? v = if v = w then some (s.cachedInfo w info modifications.state)
          else s.info? v) ∧ ∀ v, t.surface? v = s.surface? v)
      (fun _ _ => False) short := by
  have same (v : Window) : s.info? v = if v = w then some info else s.info? v := by
    by_cases eq : v = w
    · simp [eq, here]
    · simp [eq]
  rw [cacheRestoreRect, ensures_whenSome]
  constructor
  · intro newState asks
    simp only [ensures_bind, ensures_infoFor_here here, ensures_state, ensures_onlyIf,
      ensures_setInfo]
    constructor
    · intro changed
      refine ⟨.setInfo here rfl rfl rfl rfl, fun v => ?_, fun _ => rfl⟩
      simp [cachedInfo, asks, changed]
    · intro unchanged
      refine ⟨.refl, fun v => ?_, fun _ => trivial⟩
      simpa [cachedInfo, asks, unchanged] using same v
  · intro asks
    refine ⟨.refl, fun v => ?_, fun _ => rfl⟩
    simpa [cachedInfo, asks] using same v

def Model.requestedRect (s : Model) (w : Window) (info : WindowInfo)
    (modifications : WindowSpecification) : Except Failure Rectangle :=
  let newPos := modifications.topLeft.getD (s.topLeft w)
  match modifications.size with
  | some size => .ok ⟨newPos, size⟩
  | none =>
    if modifications.constrains then do
      let (pos, size) ← info.constrainResize (s.rect w) newPos (s.size w)
      pure ⟨pos, size⟩
    else .ok ⟨newPos, s.size w⟩

theorem ensures_updateGeometry (integrity : s.Integrity) (here : s.info? w = some info) :
    (updateGeometry fuel w modifications).Ensures s
      (fun _ t => Moved w s t ∧ ∃ rect, s.requestedRect w info modifications = .ok rect ∧
        t.rect w = rect ∧ (s.rect w = rect → t = s))
      (fun failure t => t = s ∧ s.requestedRect w info modifications = .error failure)
      (s.Short fuel) := by
  have live := integrity.live_of_info here
  have place (rect : Rectangle) (asked : s.requestedRect w info modifications = .ok rect) :
      (placeAndSize fuel w rect.topLeft rect.size).Ensures s
        (fun _ t => Moved w s t ∧ ∃ rect, s.requestedRect w info modifications = .ok rect ∧
          t.rect w = rect ∧ (s.rect w = rect → t = s))
        (fun failure t => t = s ∧ s.requestedRect w info modifications = .error failure)
        (s.Short fuel) := by
    refine (ensures_placeAndSize integrity live rect.topLeft rect.size).mono ?_
      (fun _ _ h => h.elim) id
    intro _ t after
    rcases after with ⟨moved, placed⟩
    exact ⟨moved, rect, asked, placed⟩
  rw [updateGeometry, ensures_bind, ensures_infoFor_here here]
  rw [ensures_bind, ensures_state]
  cases sized : modifications.size with
  | some size =>
    exact place ⟨modifications.topLeft.getD (s.topLeft w), size⟩
      (by simp [requestedRect, sized])
  | none =>
    dsimp only
    by_cases constrains : modifications.constrains
    · rw [if_pos constrains, ensures_bind, ensures_ofExcept]
      constructor
      · rintro ⟨pos, size⟩ ok
        exact place ⟨pos, size⟩ (by simp [requestedRect, sized, constrains, ok])
      · intro failure error
        exact ⟨rfl, by simp [requestedRect, sized, constrains, error]⟩
    · rw [if_neg constrains, ensures_onlyIf]
      constructor
      · intro _
        exact place ⟨modifications.topLeft.getD (s.topLeft w), s.size w⟩
          (by simp [requestedRect, sized, constrains])
      · intro unset
        refine ⟨.refl, s.rect w, ?_, rfl, fun _ => rfl⟩
        simp only [Option.isSome_iff_ne_none, ne_eq, not_not] at unset
        simp [requestedRect, sized, constrains, unset, rect]

/-- The rectangle the placement phase gives a window, if there is such a phase. -/
def Model.placementRect (s : Model) (w : Window) (info : WindowInfo)
    (modifications : WindowSpecification) : Except Failure (Option Rectangle) :=
  if modifications.placementHints.isSome then
    match s.lock info.parent with
    | some parent => do
      let rect ← placeRelative s.activeDisplay (s.rect parent) modifications (s.size w)
      pure (some rect)
    | none => .ok none
  else .ok none

theorem ensures_updatePlacement (integrity : s.Integrity) (here : s.info? w = some info) :
    (updatePlacement fuel w modifications).Ensures s
      (fun _ t => Moved w s t ∧ ∃ placed, s.placementRect w info modifications = .ok placed ∧
        (placed = none → t = s) ∧ ∀ rect ∈ placed, t.rect w = rect)
      (fun failure t => t = s ∧ s.placementRect w info modifications = .error failure)
      (s.Short fuel) := by
  rw [updatePlacement, ensures_onlyIf]
  constructor
  swap
  · intro unset
    exact ⟨.refl, none, by simp [placementRect, unset], fun _ => rfl, nofun⟩
  intro hints
  rw [ensures_bind, ensures_infoFor_here here]
  rw [ensures_bind, ensures_state, ensures_whenSome]
  constructor
  · intro parent locked
    rw [ensures_bind, ensures_ofExcept]
    constructor
    · intro rect ok
      have live := integrity.live_of_info here
      apply (ensures_placeAndSize integrity live rect.topLeft rect.size).bind_throwless
      intro _ t after
      rcases after with ⟨moved, placed, -⟩
      refine ⟨moved.trans (moved_emit rfl), some rect, ?_, nofun, fun _ eq => ?_⟩
      · simp [placementRect, hints, locked, ok]
      · obtain rfl := Option.some.inj eq
        exact placed
    · intro failure error
      exact ⟨rfl, by simp [placementRect, hints, locked, error]⟩
  · intro orphan
    exact ⟨.refl, none, by simp [placementRect, hints, orphan], fun _ => rfl, nofun⟩

/-- What a request makes of a surface, its geometry apart. -/
def Model.dressed (s : Model) (w : Window) (modifications : WindowSpecification)
    (type : WindowType) (v : Window) (surface : Surface) : Surface :=
  if v = w then (s.retyped w type v surface).adorned modifications else surface

/-- The state `modify_window` has reached before it turns to the window's own state. -/
structure Prepared (w : Window) (modifications : WindowSpecification) (tmp : WindowInfo)
    (s t : Model) : Prop where
  integrity : t.Integrity
  undisturbed : Undisturbed s t
  parents : ∀ v, t.parentOf v = if v = w then tmp.parent else s.parentOf v
  types : ∀ v, t.typeOf v = if v = w then some tmp.type else s.typeOf v
  infos : ∀ v, t.info? v = (if v = w then some (s.cachedInfo w tmp modifications.state)
    else s.info? v).map fun info => { info with children := t.childrenOf v }
  unlinked : tmp.parent = s.parentOf w → ∀ v, t.childrenOf v = s.childrenOf v
  surfaces : ∀ v, ∃ rect : Rectangle, t.surface? v = (s.surface? v).map fun surface =>
    { s.dressed w modifications tmp.type v surface with
      topLeft := rect.topLeft, size := rect.size }

namespace Prepared

variable {t u : Model} {v : Window} (h : Prepared w modifications tmp s t)

include h

theorem record : t.info? w =
    some { s.cachedInfo w tmp modifications.state with children := t.childrenOf w } := by
  simpa using h.infos w

theorem short {fuel : Nat} (short : t.Short fuel) : (s.setInfo w tmp).Short fuel :=
  short.congr fun v => by simp [h.parents]

theorem parents_kept (same : tmp.parent = s.parentOf w) : t.parentOf v = s.parentOf v := by
  rw [h.parents]
  split
  · rename_i eq
    rw [eq, same]
  · rfl

theorem moved (moved : Moved w t u) : Prepared w modifications tmp s u where
  integrity := moved.integrity h.integrity
  undisturbed := h.undisturbed.trans (.of_moved moved)
  parents v := (moved.sameStructure.parents v).trans (h.parents v)
  types v := ((Retouched.of_moved moved).types v).trans (h.types v)
  infos v := by rw [moved.info?, h.infos, moved.sameStructure.children]
  unlinked same v := (moved.sameStructure.children v).trans (h.unlinked same v)
  surfaces v := by
    obtain ⟨rect, eq⟩ := h.surfaces v
    obtain ⟨rect', eq'⟩ := moved.inside v
    refine ⟨rect', ?_⟩
    rw [eq', eq]
    cases s.surface? v <;> rfl

end Prepared

theorem Model.rect_dressed {type : WindowType} {v : Window} {surface : Surface} :
    (s.dressed w modifications type v surface).topLeft = surface.topLeft ∧
      (s.dressed w modifications type v surface).size = surface.size := by
  unfold dressed
  split <;> simp [Surface.adorned, rect_retyped]

theorem Model.rect_of_dressed {t : Model} {type : WindowType} {v : Window}
    (surfaces : t.surface? v = (s.surface? v).map (s.dressed w modifications type v)) :
    t.rect v = s.rect v := by
  unfold rect topLeft size
  rw [surfaces]
  cases s.surface? v <;> simp [rect_dressed]

/-- The swap, the attributes and the restore rectangle. -/
theorem ensures_prepare (integrity : s.Integrity) (here : s.info? w = some info)
    (requested : Requested s modifications info tmp) {rest : Manager Unit}
    {post : Unit → Model → Prop} {error : Failure → Model → Prop} {short : Prop}
    (continues : ∀ t, Prepared w modifications tmp s t → (∀ v, t.rect v = s.rect v) →
      rest.Ensures t post error short) :
    Ensures (do
      swapInfo w tmp
      updateSurface w modifications
      cacheRestoreRect w modifications
      rest) s post error short := by
  apply (ensures_swapInfo integrity here requested).bind_throwless
  intro _ s₁ swapped
  apply ensures_updateSurface.bind_throwless
  intro _ s₂ after
  rcases after with ⟨touched, infos, adorned⟩
  have dressed (v : Window) :
      s₂.surface? v = (s.surface? v).map (s.dressed w modifications tmp.type v) := by
    rw [adorned, swapped.surfaces, Option.map_map]
    refine congrArg (Option.map · _) (funext fun surface => ?_)
    by_cases eq : v = w <;> simp [dressed, retyped, eq]
  have record : s₂.info? w = some { tmp with children := s₁.childrenOf w } := by
    simp [infos, swapped.infos]
  apply (ensures_cacheRestoreRect record).bind_throwless
  intro _ s₃ after
  rcases after with ⟨cached, infos', surfaces⟩
  have same := touched.trans cached
  have rect (v : Window) : s₂.rect v = s.rect v := rect_of_dressed (dressed v)
  refine continues s₃
    { integrity := same.integrity (swapped.integrity integrity)
      undisturbed := swapped.undisturbed.trans same.undisturbed
      parents := fun v => (same.sameStructure.parents v).trans swapped.parents
      types := fun v => (same.types v).trans swapped.types
      infos := fun v => ?_
      unlinked := fun kept v => (same.sameStructure.children v).trans (swapped.unlinked kept v)
      surfaces := fun v => ?_ } fun v => ?_
  · rw [infos' v, same.sameStructure.children]
    by_cases eq : v = w
    · subst eq
      cases asks : modifications.state with
      | none => simp [cachedInfo]
      | some newState =>
        by_cases changed : tmp.state = newState
        · simp [cachedInfo, changed]
        · simp [cachedInfo, changed, rect, WindowInfo.currentRestoreRect]
    · simp [eq, infos, swapped.infos]
  · obtain ⟨rect, eq⟩ := Moved.unmoved s₃ v
    refine ⟨rect, ?_⟩
    rw [eq, surfaces, dressed, Option.map_map]
    rfl
  · rw [← rect v]
    simp [Model.rect, topLeft, size, surfaces v]

theorem Prepared.requestedRect {t : Model} (h : Prepared w modifications tmp s t)
    (rect : t.rect w = s.rect w) {current : WindowInfo} (there : t.info? w = some current) :
    t.requestedRect w current modifications = s.requestedRect w tmp modifications := by
  have place : t.topLeft w = s.topLeft w := congrArg Rectangle.topLeft rect
  have size : t.size w = s.size w := congrArg Rectangle.size rect
  obtain rfl := Option.some.inj (there.symm.trans h.record)
  obtain ⟨restoreRect, eq⟩ := s.cachedInfo_eq w tmp modifications.state
  unfold Model.requestedRect
  rw [rect, place, size, eq]
  rfl

/-- One rule for `modify_window`: how it may fail, and what its last phase starts from. -/
theorem ensures_modifyWindow (integrity : s.Integrity) (here : s.info? w = some info)
    {post : Unit → Model → Prop} {error : Failure → Model → Prop} {short : Prop}
    (rejected : ∀ failure, (∀ tmp, ¬Requested s modifications info tmp) → error failure s)
    (exhausts : ∀ tmp t, Requested s modifications info tmp →
      Prepared w modifications tmp s t → t.Short fuel → short)
    (unsized : ∀ tmp t failure, Requested s modifications info tmp →
      Prepared w modifications tmp s t → s.requestedRect w tmp modifications = .error failure →
      error failure t)
    (unplaced : ∀ tmp t failure rect, Requested s modifications info tmp →
      Prepared w modifications tmp s t → s.requestedRect w tmp modifications = .ok rect →
      t.rect w = rect → (s.rect w = rect → ∀ v, t.rect v = s.rect v) →
      t.placementRect w tmp modifications = .error failure → error failure t)
    (stated : ∀ tmp t rect, Requested s modifications info tmp →
      Prepared w modifications tmp s t → s.requestedRect w tmp modifications = .ok rect →
      (modifications.placementHints = none → t.rect w = rect) →
      (∃ u placed, Undisturbed s u ∧ u.placementRect w tmp modifications = .ok placed ∧
        (s.rect w = rect → ∀ v, u.rect v = s.rect v) ∧ ∀ rect ∈ placed, t.rect w = rect) →
      Ensures (do
        whenSome modifications.state (setState fuel w)
        whenSome modifications.confinePointer fun confinePointer =>
          configure w ({ · with confinePointer })) t post error short) :
    (modifyWindow fuel w modifications).Ensures s post error short := by
  refine (ensures_bind ..).mpr ((ensures_requestedInfo here).mono ?_ ?_ id)
  rotate_left
  · intro failure t after
    rcases after with ⟨rfl, refused⟩
    exact rejected failure refused
  intro tmp t after
  rcases after with ⟨rfl, requested⟩
  apply ensures_prepare integrity here requested
  intro s₃ prepared rects
  refine (ensures_bind ..).mpr ((ensures_updateGeometry prepared.integrity prepared.record).mono
    ?_ ?_ (exhausts tmp s₃ requested prepared))
  rotate_left
  · intro failure s₄ after
    rcases after with ⟨rfl, unset⟩
    rw [prepared.requestedRect (rects w) prepared.record] at unset
    exact unsized tmp _ failure requested prepared unset
  intro _ s₄ after
  rcases after with ⟨moved, rect, ok, sized, still⟩
  rw [rects w] at still
  rw [prepared.requestedRect (rects w) prepared.record] at ok
  have prepared' : Prepared w modifications tmp t s₄ :=
    prepared.moved moved
  have placement (u : Model) : u.placementRect w
      { t.cachedInfo w tmp modifications.state with children := s₄.childrenOf w } modifications =
      u.placementRect w tmp modifications := by
    obtain ⟨restoreRect, eq⟩ := t.cachedInfo_eq w tmp modifications.state
    rw [eq]
    rfl
  refine (ensures_bind ..).mpr ((ensures_updatePlacement prepared'.integrity prepared'.record).mono
    ?_ ?_ (exhausts tmp s₄ requested prepared'))
  rotate_left
  · intro failure s₅ after
    rcases after with ⟨rfl, unset⟩
    rw [placement] at unset
    refine unplaced tmp _ failure rect requested prepared' ok sized (fun same v => ?_) unset
    rw [still same, rects v]
  intro _ s₅ after
  rcases after with ⟨moved', placed, found, stays, there⟩
  rw [placement] at found
  refine stated tmp s₅ rect requested (prepared'.moved moved') ok
    (fun unset => ?_) ⟨s₄, placed, prepared'.undisturbed, found, fun same v => ?_, there⟩
  rotate_left
  · rw [still same, rects v]
  have unplaced : placed = none := by
    simp only [placementRect, unset, Option.isSome_none, Bool.false_eq_true, ↓reduceIte] at found
    exact (Except.ok.inj found).symm
  obtain rfl := stays unplaced
  exact sized

end Miral
