import Miral.RoundTrip
import Miral.TitlebarCallbacks

/-! A request for a state under the titlebar policy: what becomes of the window, of the others
and of the focus, whatever the callbacks have done to the titlebars in between. -/
namespace Miral

open Program Prog Forest Model

namespace Model

variable {d : Window → Prop} {s t u : Model} {w v x : Window} {info : WindowInfo}
  {value : WindowState} {titlebar : Option Window}

/-- What is seen of a window in a coherent state is told by its record, once it has been posted
to. -/
theorem Coherent.visible_iff (coherent : s.Coherent) (here : s.info? w = some info) :
    s.visible w ↔ ¬info.state.concealed ∧ (s.surface? w).map Surface.posted = some true := by
  obtain ⟨surface, drawn⟩ := live_iff.mp
    (coherent.integrity.live_of_info here)
  have state : info.state = surface.state :=
    Option.some.inj ((stateOf_eq here).symm.trans (coherent.synced w surface drawn))
  have shown : ¬info.state.concealed → surface.hidden = false := by
    intro visible
    by_contra hidden
    exact visible (state ▸ coherent.hides w surface drawn (by simpa using hidden))
  simp only [visible, drawn, ← state, Surface.visible, Option.map_some, Option.some.injEq,
    Bool.and_eq_true, Bool.not_eq_true', Bool.not_eq_true]
  constructor
  · intro seen
    rcases seen with ⟨visible, posted, -⟩
    exact ⟨visible, posted⟩
  · intro seen
    rcases seen with ⟨visible, posted⟩
    exact ⟨visible, posted, shown (by simp [visible])⟩

theorem Coherent.focusable_iff (coherent : s.Coherent) (here : s.info? w = some info) :
    s.Focusable w ↔ info.type.canBeActive ∧ s.visible w := by
  constructor
  · intro focusable
    obtain ⟨info', here', active, -⟩ := id focusable
    obtain rfl := Option.some.inj (here.symm.trans here')
    exact ⟨active, focusable.visible coherent.synced⟩
  · rintro ⟨active, seen⟩
    refine ⟨info, here, active, ?_⟩
    have shown := ((coherent.visible_iff here).mp seen).1
    unfold visible at seen
    unfold isVisible
    cases drawn : s.surface? w <;> simp_all

theorem activeWindow_promoted (coherent : t.Coherent) (focusable : t.Focusable x)
    (mru : t.mruActiveWindows = promoted s.mruActiveWindows (some x)) :
    t.activeWindow = some x :=
  activeWindow_concat mru (focusable.visible coherent.synced)

/-- What `set_state` tries depends on the MRU list, on who is seen in it, and on the
workspaces. -/
theorem hideFallbacks_congr (mru : t.mruActiveWindows = s.mruActiveWindows)
    (seen : ∀ v ∈ s.mruActiveWindows, t.visible v = s.visible v)
    (workspaces : t.workspacesToWindows = s.workspacesToWindows)
    (living : t.liveWorkspaces = s.liveWorkspaces) : t.hideFallbacks w = s.hideFallbacks w := by
  have containing (v : Window) : t.workspacesContaining v = s.workspacesContaining v := by
    rw [workspacesContaining, workspacesContaining, workspaces, living]
  have same (admits admits' : Model → Window → Bool) (agree : ∀ v, admits t v = admits' s v) :
      t.candidates admits = s.candidates admits' := by
    rw [candidates, candidates, mru]
    apply List.filter_congr
    intro v member
    rw [seen v (List.mem_reverse.mp member), agree]
  have others : t.candidates (fun _ v => v ≠ w) = s.candidates fun _ v => v ≠ w :=
    same _ _ fun _ => rfl
  have sharing : t.candidates (fun s v => v ≠ w ∧ s.sharesWorkspace v (s.workspacesContaining w)) =
      s.candidates fun s v => v ≠ w ∧ s.sharesWorkspace v (s.workspacesContaining w) :=
    same _ _ fun v => decide_eq_decide.mpr (by simp only [sharesWorkspace, containing])
  rw [hideFallbacks, hideFallbacks, others, sharing]

/-- Whom a window that is shown may give the focus to, while nobody has it: a window of its own
tree. -/
theorem Stated.shared (stated : Stated w info value s t) (integrity : t.Integrity)
    (here : s.info? w = some info) (visible : ¬value.concealed) (inactive : s.activeWindow = none) :
    t.mruActiveWindows = s.mruActiveWindows ∨ ∃ x, SameTree s.parentOf w x ∧ t.Focusable x ∧
      t.mruActiveWindows = promoted s.mruActiveWindows (some x) := by
  by_cases concealed : info.state.concealed
  · obtain ⟨r, picks, mru⟩ := stated.taken visible concealed inactive
    cases r with
    | none => exact .inl mru
    | some x =>
      have same := picks.sameTree integrity x rfl
      rw [show t.parentOf = s.parentOf from funext fun _ => stated.parentOf here] at same
      exact .inr ⟨x, same, picks.focusable x rfl, mru⟩
  · exact .inl (stated.kept (fun hides => absurd hides visible) fun _ moves => concealed moves.1)

theorem Stated.focusable (stated : Stated w info value s t) (coherent : s.Coherent)
    (here : s.info? w = some info) (visible : ¬value.concealed) (focusable : s.Focusable x) :
    t.Focusable x := by
  obtain ⟨info', there⟩ := managed_iff.mp focusable.managed
  obtain ⟨active, seen⟩ := (coherent.focusable_iff there).mp focusable
  have posted := ((coherent.visible_iff there).mp seen).2
  have coherent' := coherent.stated here stated
  by_cases eq : x = w
  · subst eq
    obtain rfl := Option.some.inj (here.symm.trans there)
    have record : t.info? x = some { info with state := value } := by simp [stated.info?]
    refine (coherent'.focusable_iff record).mpr ⟨active, ?_⟩
    refine (coherent'.visible_iff record).mpr ⟨visible, ?_⟩
    rw [stated.surface?, if_pos rfl, Option.map_map]
    exact posted
  · have record : t.info? x = some info' := by rw [stated.info?, if_neg eq, there]
    refine (coherent'.focusable_iff record).mpr ⟨active, ?_⟩
    rwa [Model.visible, stated.surface?, if_neg eq]

theorem rect_of_surface (same : t.surface? v = s.surface? v) : t.rect v = s.rect v := by
  simp only [rect, topLeft, size, same]

/-- What `set_state` has done to a window, and to the focus. -/
structure Turned (d : Window → Prop) (w : Window) (titlebar : Option Window)
    (previous value : WindowState) (s t : Model) : Prop where
  furnished : t.Furnished d
  infos : ∀ v, v ≠ w → ¬d v → t.info? v = s.info? v
  posted : ∀ v, v = w ∨ ¬d v →
    (t.surface? v).map Surface.posted = (s.surface? v).map Surface.posted
  parents : ∀ v, t.parentOf v = s.parentOf v
  children : ∀ v, t.childrenOf v = s.childrenOf v
  types : ∀ v, t.typeOf v = s.typeOf v
  workspaces : t.workspacesToWindows = s.workspacesToWindows
  living : t.liveWorkspaces = s.liveWorkspaces
  displays : t.displays = s.displays
  displayLayout : t.displayLayout = s.displayLayout
  kept : (value.concealed → s.activeWindow ≠ some w) →
    (¬value.concealed → s.activeWindow ≠ none) → t.mruActiveWindows = s.mruActiveWindows
  yields : value.concealed → s.activeWindow = some w → ∃ r, t.FirstPick (s.hideFallbacks w) r ∧
    t.mruActiveWindows = promoted s.mruActiveWindows r
  takes : ¬value.concealed → s.activeWindow = none → t.mruActiveWindows = s.mruActiveWindows ∨
    ∃ v x, (v = w ∨ titlebar = some v) ∧ SameTree s.parentOf v x ∧ t.Focusable x ∧
      t.mruActiveWindows = promoted s.mruActiveWindows (some x)
  wakes : ¬value.concealed → previous.concealed → s.activeWindow = none → t.Focusable w →
    t.activeWindow ≠ none

theorem Turned.marked (furnished : s.Furnished d) (here : s.info? w = some info) :
    Turned d w titlebar info.state info.state s (s.markFullscreen w info.state) := by
  have same : Redecorated (fun _ => False) s (s.markFullscreen w info.state) := .marked
  have mru : (s.markFullscreen w info.state).mruActiveWindows = s.mruActiveWindows := by
    rw [markFullscreen_eq]
  refine ⟨furnished.marked here, fun v _ _ => same.infos v id,
    fun v _ => congrArg _ (same.surfaces v id), same.parents, same.children, same.types,
    same.workspaces, same.living, same.displays, same.displayLayout, fun _ _ => mru,
    fun concealed active => ?_, fun _ _ => .inl mru, fun visible concealed => ?_⟩
  · have seen := activeWindow_visible active
    exact absurd concealed ((furnished.coherent.visible_iff here).mp seen).1
  · exact absurd concealed visible

/-- The callback, and then the rest of `set_state`. -/
theorem Turned.of_stated (furnished : s.Furnished d) (here : s.info? w = some info)
    (advised : Advised d w titlebar value s t) (stated : Stated w info value t u) :
    Turned d w titlebar info.state value s u := by
  have known : t.info? w = some info := advised.record.trans here
  have calm := advised.redecorated
  have surfaces (v : Window) (either : v = w ∨ ¬d v) : t.surface? v = s.surface? v := by
    rcases either with rfl | other
    · exact advised.surface
    · exact calm.surfaces v other
  have infos (v : Window) (ne : v ≠ w) (other : ¬d v) : u.info? v = s.info? v := by
    rw [stated.info?, if_neg ne, calm.infos v other]
  have parents (v : Window) : u.parentOf v = s.parentOf v :=
    (stated.parentOf known).trans (calm.parents v)
  have furnished' := advised.furnished.stated known stated
  have seen (v : Window) (other : ¬d v) : t.visible v = s.visible v := by
    rw [visible, surfaces v (.inr other), visible]
  have active (mru : t.mruActiveWindows = s.mruActiveWindows) : t.activeWindow = s.activeWindow :=
    activeWindow_congr mru fun v member => seen v (furnished.idle v member)
  have steady (idle : value.concealed ∨ s.activeWindow ≠ none) :
      t.mruActiveWindows = s.mruActiveWindows := by
    rcases advised.focus with same | ⟨visible, inactive, -⟩
    · exact same
    · rcases idle with concealed | busy
      · exact absurd concealed visible
      · exact absurd inactive busy
  have integrity := furnished'.coherent.integrity
  have led {v x : Window} (visible : ¬value.concealed) (picks : t.Picks v (some x))
      (mru : t.mruActiveWindows = promoted s.mruActiveWindows (some x)) :
      u.Focusable x ∧ u.mruActiveWindows = promoted s.mruActiveWindows (some x) := by
    have focusable := picks.focusable x rfl
    have now := activeWindow_promoted advised.furnished.coherent focusable mru
    refine ⟨stated.focusable advised.furnished.coherent known visible focusable, ?_⟩
    rw [← mru]
    exact stated.kept (fun hides => absurd hides visible) fun _ moves => by simp [now] at moves
  refine
    { furnished := furnished'
      infos, parents
      posted := fun v either => ?_
      children := fun v => (stated.childrenOf known).trans (calm.children v)
      types := fun v => (stated.typeOf known).trans (calm.types v)
      workspaces := stated.rest.1.trans calm.workspaces
      living := stated.rest.2.1.trans calm.living
      displays := stated.rest.2.2.1.trans calm.displays
      displayLayout := stated.rest.2.2.2.trans calm.displayLayout
      kept := fun hides shows => ?_
      yields := fun concealed busy => ?_
      takes := fun visible inactive => ?_
      wakes := fun visible concealed inactive focusable => ?_ }
  · rw [stated.surface?, surfaces v either]
    split
    · rw [Option.map_map]
      rfl
    · rfl
  · have mru : t.mruActiveWindows = s.mruActiveWindows := by
      by_cases concealed : value.concealed
      · exact steady (.inl concealed)
      · exact steady (.inr (shows concealed))
    have same := active mru
    refine (stated.kept (fun concealed => ?_) fun visible moves => ?_).trans mru
    · rw [same]
      exact hides concealed
    · exact shows visible (same.symm.trans moves.2)
  · have mru := steady (.inl concealed)
    obtain ⟨r, search, moved⟩ := stated.yielded concealed ((active mru).trans busy)
    rw [hideFallbacks_congr mru (fun v member => seen v (furnished.idle v member))
      calm.workspaces calm.living] at search
    exact ⟨r, search, by rw [moved, mru]⟩
  · rcases advised.focus with mru | ⟨-, -, v, x, bar, picks, mru⟩
    · rcases stated.shared integrity known visible ((active mru).trans inactive) with
        same | ⟨x, tree, focusable, moved⟩
      · exact .inl (same.trans mru)
      · rw [show t.parentOf = s.parentOf from funext calm.parents] at tree
        exact .inr ⟨w, x, .inl rfl, tree, focusable, by rw [moved, mru]⟩
    · obtain ⟨focusable, moved⟩ := led visible picks mru
      have tree := picks.sameTree advised.furnished.coherent.integrity x rfl
      rw [show t.parentOf = s.parentOf from funext calm.parents] at tree
      exact .inr ⟨v, x, .inr bar, tree, focusable, moved⟩
  · rcases advised.focus with mru | ⟨-, -, v, x, bar, picks, mru⟩
    · obtain ⟨r, picks, moved⟩ := stated.taken visible concealed ((active mru).trans inactive)
      obtain ⟨x, rfl⟩ := picks.of_focusable focusable
      rw [activeWindow_promoted furnished'.coherent (picks.focusable x rfl) moved]
      simp
    · obtain ⟨focusable, moved⟩ := led visible picks mru
      rw [activeWindow_promoted furnished'.coherent focusable moved]
      simp

/-- What has gone before has changed nothing that matters here. -/
theorem Turned.after {previous : WindowState} (touched : Retouched s t)
    (infos : ∀ v, v ≠ w → t.info? v = s.info? v)
    (turned : Turned d w titlebar previous value t u) :
    Turned d w titlebar previous value s u where
  furnished := turned.furnished
  infos v ne plain := (turned.infos v ne plain).trans (infos v ne)
  posted v either := by
    have same := congrArg (Option.map (·.2.2)) (touched.undisturbed.sight v)
    rw [Option.map_map, Option.map_map] at same
    exact (turned.posted v either).trans same
  parents v := (turned.parents v).trans (touched.sameStructure.parents v)
  children v := (turned.children v).trans (touched.sameStructure.children v)
  types v := (turned.types v).trans (touched.types v)
  workspaces := turned.workspaces.trans touched.undisturbed.workspaces
  living := turned.living.trans touched.undisturbed.living
  displays := turned.displays.trans touched.undisturbed.displays
  displayLayout := turned.displayLayout.trans touched.undisturbed.displayLayout
  kept hides shows := by
    rw [← touched.undisturbed.activeWindow] at hides shows
    exact (turned.kept hides shows).trans touched.undisturbed.mru
  yields concealed active := by
    rw [← touched.undisturbed.activeWindow] at active
    obtain ⟨r, search, mru⟩ := turned.yields concealed active
    have fallbacks : t.hideFallbacks w = s.hideFallbacks w :=
      hideFallbacks_congr touched.undisturbed.mru (fun _ _ => touched.undisturbed.visible)
        touched.undisturbed.workspaces touched.undisturbed.living
    exact ⟨r, fallbacks ▸ search, by rw [mru, touched.undisturbed.mru]⟩
  takes visible inactive := by
    rw [← touched.undisturbed.activeWindow] at inactive
    rw [← touched.undisturbed.mru, ← show t.parentOf = s.parentOf from
      funext touched.sameStructure.parents]
    exact turned.takes visible inactive
  wakes visible concealed inactive := by
    rw [← touched.undisturbed.activeWindow] at inactive
    exact turned.wakes visible concealed inactive

/-- The geometry of a window, its tree and the titlebars may have changed. -/
structure Reshaped (d : Window → Prop) (w : Window) (s t : Model) : Prop where
  touched : Retouched s t
  infos : ∀ v, t.info? v = s.info? v
  outside : ∀ v, ¬d v → ¬Above s.parentOf w v → t.surface? v = s.surface? v

namespace Reshaped

theorem refl : Reshaped d w s s := ⟨.refl, fun _ => rfl, fun _ _ _ => rfl⟩

theorem trans (h : Reshaped d w s t) (h' : Reshaped d w t u) : Reshaped d w s u where
  touched := h.touched.trans h'.touched
  infos v := (h'.infos v).trans (h.infos v)
  outside v plain apart := by
    have same : t.parentOf = s.parentOf := funext h.touched.sameStructure.parents
    rw [h'.outside v plain (by rwa [same]), h.outside v plain apart]

theorem of_moved (moved : Moved w s t) : Reshaped d w s t where
  touched := .of_moved moved
  infos _ := moved.info?
  outside v _ apart := moved.outside v apart

theorem resized (kind : d v) (size : Size) : Reshaped d w s
    (s.configure v ({ · with size := size })) where
  touched := .configure fun _ => rfl
  infos _ := info?_configure _
  outside x plain _ := by
    have ne : x ≠ v := fun eq => plain (eq ▸ kind)
    simp [ne]

theorem parentOf (h : Reshaped d w s t) : t.parentOf = s.parentOf :=
  funext h.touched.sameStructure.parents

end Reshaped

/-- What `place_and_size_for_state` makes of a request for a state. -/
def placementFor (s : Model) (w : Window) (info : WindowInfo) (value : WindowState) :
    Option Rectangle :=
  if info.state = value then none
  else s.rectForState w info (info.currentRestoreRect (s.rect w)) value

theorem stateRect_eq : s.stateRect w info value = (s.placementFor w info value).getD (s.rect w) := by
  unfold stateRect placementFor
  split <;> rfl

def placing (state : Option WindowState) (rect : Option Rectangle) : WindowSpecification :=
  { state, topLeft := rect.map Rectangle.topLeft, size := rect.map Rectangle.size }

theorem placeAndSizeForState_state : s.placeAndSizeForState { state := some value } w info =
    placing (some value) (s.placementFor w info value) := by
  unfold placeAndSizeForState placementFor
  dsimp only
  rw [placedForState_state]
  by_cases same : info.state = value
  · rw [if_pos (by simp [same]), if_pos same]
    rfl
  · rw [if_neg (by simp [Ne.symm same]), if_neg same]
    rw [Option.getD_none, Option.getD_none]
    cases s.rectForState w info (info.currentRestoreRect (s.rect w)) value <;> rfl

/-- What a request for a state has done. -/
structure Granted (d : Window → Prop) (w : Window) (titlebar : Option Window) (info : WindowInfo)
    (value : WindowState) (s t : Model) : Prop extends
    Turned d w titlebar info.state value s t where
  record : t.info? w = some { s.cachedInfo w info (some value) with state := value }
  rect : t.rect w = s.stateRect w info value
  outside : ∀ v, ¬d v → ¬Above s.parentOf w v → t.rect v = s.rect v
  still : s.stateRect w info value = s.rect w → ∀ v, ¬d v → t.rect v = s.rect v

end Model

/-- What holds of the shell whatever it is asked to do: the decorations are there for show. -/
structure Shell.Sound (s : Shell) : Prop where
  titled : s.Titled
  furnished : s.manager.Furnished s.IsDecoration

namespace TitlebarPolicy

variable {s : Shell} {m : Model} {w : Window} {info : WindowInfo} {value : WindowState}
  {fuel : Nat} {short : Prop}

theorem shallow_short (exhausts : m.Short fuel → short) (few : fuel < 2) : short := by
  apply exhausts
  intro d bound
  have := bound.pos
  omega

theorem ensures_setState_turned (titled : s.Titled) (furnished : m.Furnished s.IsDecoration)
    (here : m.info? w = some info) (exhausts : m.Short fuel → short) :
    (setState (adviseStateChange fuel fuel) fuel w value).Ensures (s.setManager m)
      (fun _ u => ∃ t, u = s.setManager t ∧
        Turned s.IsDecoration w (s.titlebar w) info.state value m t ∧
        t.info? w = some { info with state := value } ∧
        ∀ v, v = w ∨ ¬s.IsDecoration v → t.rect v = m.rect v)
      (fun _ _ => False) short := by
  refine ensures_setState (F := id) (m := m) here rfl ?_ fun changed => ?_
  · rintro rfl
    have same : Redecorated (fun _ => False) m (m.markFullscreen w info.state) := .marked
    exact ⟨m.markFullscreen w info.state, rfl, .marked furnished here, by simpa using here,
      fun v _ => rect_of_surface (same.surfaces v id)⟩
  · refine (ensures_adviseStateChange titled furnished.emit (shallow_short exhausts)
      exhausts).imp ?_
    intro _ _ after
    rcases after with ⟨t, rfl, advised⟩
    have since : Advised s.IsDecoration w (s.titlebar w) value m t :=
      { advised with redecorated := Redecorated.emit.trans advised.redecorated }
    have known : t.info? w = some info := since.record.trans here
    refine ⟨t, rfl, since.furnished.coherent, known,
      fun short => exhausts (short.congr since.redecorated.parents), fun u stated => ?_⟩
    refine ⟨u, rfl, .of_stated furnished here since stated, by simp [stated.info?],
      fun v either => ?_⟩
    rw [stated.rect]
    rcases either with rfl | other
    · exact rect_of_surface since.surface
    · exact rect_of_surface (since.redecorated.surfaces v other)

theorem ensures_placeAndSize (titled : s.Titled) (integrity : m.Integrity) (live : m.Live w)
    (newPos : Point) (newSize : Size) (exhausts : m.Short fuel → short) :
    (placeAndSize fuel w newPos newSize).Ensures (s.setManager m)
      (fun _ u => ∃ t, u = s.setManager t ∧ Reshaped s.IsDecoration w m t ∧
        t.rect w = ⟨newPos, newSize⟩ ∧ (m.rect w = ⟨newPos, newSize⟩ → t = m))
      (fun _ _ => False) short := by
  have move (t : Model) (reshaped : Reshaped s.IsDecoration w m t) (sized : t.size w = newSize)
      (kept : m.rect w = ⟨newPos, newSize⟩ → t = m) :
      (managing (moveTree fuel w (newPos - t.topLeft w))).Ensures (s.setManager t)
        (fun _ u => ∃ t, u = s.setManager t ∧ Reshaped s.IsDecoration w m t ∧
          t.rect w = ⟨newPos, newSize⟩ ∧ (m.rect w = ⟨newPos, newSize⟩ → t = m))
        (fun _ _ => False) short := by
    rw [ensures_managing]
    refine (ensures_moveTree (reshaped.touched.integrity integrity)
      (reshaped.touched.undisturbed.live.mpr live) _).mono ?_ (fun _ _ h => h) ?_
    · intro _ u after
      rcases after with ⟨moved, sizes, placed, still, -⟩
      refine ⟨u, rfl, reshaped.trans (.of_moved moved), ?_, fun same => ?_⟩
      · rw [Model.rect, placed, sizes]
        rw [sized, Point.add_sub_self]
      · obtain rfl := kept same
        exact still (Point.sub_eq_zero.mpr (congrArg Rectangle.topLeft same).symm)
    · intro short
      apply exhausts
      intro d bound
      have same : t.parentOf = m.parentOf := reshaped.parentOf
      have := short d 0 w (by rwa [DepthBelow, same]) rfl
      omega
  have sized (t : Model) (resized : Reshaped s.IsDecoration w m t)
      (differs : m.size w ≠ newSize) :
      (managing (configure w ({ · with size := newSize }))).Ensures (s.setManager t)
        (fun _ u => (Prog.state >>= fun s => managing (moveTree fuel w (newPos -
          s.manager.topLeft w))).Ensures u (fun _ u => ∃ t, u = s.setManager t ∧
            Reshaped s.IsDecoration w m t ∧ t.rect w = ⟨newPos, newSize⟩ ∧
            (m.rect w = ⟨newPos, newSize⟩ → t = m)) (fun _ _ => False) short)
        (fun _ _ => False) short := by
    rw [ensures_managing, ensures_configure, ensures_bind, ensures_state]
    refine move _ (resized.trans (.of_moved (moved_configure Surface.topLeft fun _ => newSize)))
      ?_ fun same => absurd (congrArg Rectangle.size same) differs
    obtain ⟨surface, here⟩ := live_iff.mp (resized.touched.undisturbed.live.mpr live)
    change t.surface? w = some surface at here
    change (t.configure w ({ · with size := newSize })).size w = newSize
    simp [Model.size, here]
  rw [placeAndSize, ensures_bind, ensures_state, ensures_bind, ensures_onlyIf]
  constructor
  · intro differs
    change m.size w ≠ newSize at differs
    rw [ensures_bind, ensures_managing, ensures_emit, ensures_bind, resizeTitlebarFor,
      ensures_bind, ensures_state, ensures_onlyIf]
    have emitted : Reshaped s.IsDecoration w m (m.emit (.adviseResize w newSize)) :=
      .of_moved (moved_emit rfl)
    refine ⟨fun _ => ?_, fun _ => sized _ emitted differs⟩
    rw [ensures_whenSome]
    refine ⟨fun v target => ?_, fun _ => sized _ emitted differs⟩
    obtain ⟨bar, -⟩ := lock_eq_some.mp target
    exact sized _ (emitted.trans (.resized (titled w v bar).2 _)) differs
  · intro same
    rw [ensures_bind, ensures_state]
    exact move m .refl (not_not.mp same) fun _ => rfl

/-- A request for a state and a place, up to the change of state. -/
theorem ensures_place (titled : s.Titled) (integrity : m.Integrity) (here : m.info? w = some info)
    (state : Option WindowState) (rect : Option Rectangle) (exhausts : m.Short fuel → short)
    {rest : TitlebarPolicy Unit} {post : Unit → Shell → Prop}
    (continues : ∀ t, Reshaped s.IsDecoration w (m.setInfo w (m.cachedInfo w info state)) t →
      t.rect w = rect.getD (m.rect w) → (rect.getD (m.rect w) = m.rect w →
        t = m.setInfo w (m.cachedInfo w info state)) →
      rest.Ensures (s.setManager t) post (fun _ _ => False) short) :
    Prog.Ensures (do
      managing (beginModification w (placing state rect))
      updateGeometry fuel w (placing state rect)
      updatePlacement fuel w (placing state rect)
      rest) (s.setManager m) post (fun _ _ => False) short := by
  have touched : Retouched m (m.setInfo w (m.cachedInfo w info state)) := retouched_cached here
  have there : (m.setInfo w (m.cachedInfo w info state)).info? w =
    some (m.cachedInfo w info state) := by simp
  have unmoved : (m.setInfo w (m.cachedInfo w info state)).rect w = m.rect w := rfl
  rw [ensures_bind, ensures_managing]
  change (beginModification w (placing state rect)).Ensures m _ _ _
  rw [placing, ensures_beginModification here]
  revert touched there unmoved continues
  generalize m.cachedInfo w info state = cached
  generalize m.setInfo w cached = m₁
  intro continues touched there unmoved
  rw [ensures_bind, updateGeometry, ensures_bind, ensures_managing]
  change (infoFor w).Ensures m₁ _ _ _
  rw [ensures_infoFor_here there, ensures_bind, ensures_state]
  have unhinted (t : Model) (done : rest.Ensures (s.setManager t) post (fun _ _ => False) short) :
      Ensures (updatePlacement fuel w (placing state rect) >>= fun _ => rest) (s.setManager t) post
        (fun _ _ => False) short := by
    rw [ensures_bind, updatePlacement, ensures_onlyIf]
    exact ⟨fun hinted => by simp [placing] at hinted, fun _ => done⟩
  cases rect with
  | none =>
    have idle : (placing state none).constrains = false := rfl
    dsimp only [Option.map_none]
    change Prog.Ensures (if (placing state none).constrains then _ else _) (s.setManager m₁) _ _ _
    rw [idle, if_neg (by simp)]
    exact unhinted m₁ (continues m₁ .refl unmoved fun _ => rfl)
  | some rect =>
    have live : m₁.Live w := by
      rw [touched.undisturbed.live, integrity.live, managed_iff]
      exact ⟨info, here⟩
    refine (ensures_placeAndSize titled (touched.integrity integrity) live rect.topLeft rect.size
      fun short => exhausts (short.congr touched.sameStructure.parents)).imp ?_
    intro _ _ after
    rcases after with ⟨t, rfl, reshaped, placed, still⟩
    refine unhinted t (continues t reshaped placed fun same => still ?_)
    rw [unmoved]
    exact same.symm

/-- One rule for requests for a state that the policy makes itself. -/
theorem ensures_placeForState (sound : s.Sound) (here : s.manager.info? w = some info)
    (exhausts : s.manager.Short fuel → short) :
    (placeForState fuel w { state := some value }).Ensures s
      (fun _ u => ∃ t, u = s.setManager t ∧
        Granted s.IsDecoration w (s.titlebar w) info value s.manager t)
      (fun _ _ => False) short := by
  rw [placeForState, ensures_bind, ensures_managing, ensures_infoFor_here here, ensures_bind,
    ensures_state, placeAndSizeForState_state, modifyWindow, modifyWindowWith]
  obtain ⟨titled, furnished⟩ := sound
  have integrity := furnished.coherent.integrity
  refine ensures_place titled integrity here (some value) (s.manager.placementFor w info value)
    exhausts fun t reshaped rect still => ?_
  have cached : (s.manager.setInfo w (s.manager.cachedInfo w info (some value))).info? w =
    some (s.manager.cachedInfo w info (some value)) := by simp
  have others (v : Window) (ne : v ≠ w) : (s.manager.setInfo w
      (s.manager.cachedInfo w info (some value))).info? v = s.manager.info? v := by simp [ne]
  have unmoved (v : Window) : (s.manager.setInfo w
    (s.manager.cachedInfo w info (some value))).rect v = s.manager.rect v := rfl
  have begun : Retouched s.manager (s.manager.setInfo w
    (s.manager.cachedInfo w info (some value))) := retouched_cached here
  have state : (s.manager.cachedInfo w info (some value)).state = info.state := by
    obtain ⟨restoreRect, eq⟩ := s.manager.cachedInfo_eq w info (some value)
    rw [eq]
  rw [← stateRect_eq] at rect still
  revert reshaped still cached others unmoved begun
  generalize s.manager.setInfo w (s.manager.cachedInfo w info (some value)) = m₁
  intro reshaped still cached others unmoved begun
  have touched := begun.trans reshaped.touched
  refine Ensures.bind (ensures_setState_turned titled (furnished.retouched touched)
    ((reshaped.infos w).trans cached)
    fun short => exhausts (short.congr touched.sameStructure.parents)) ?_
  intro _ _ after
  rcases after with ⟨u, rfl, turned, record, rects⟩
  rw [state] at turned
  refine ⟨u, rfl, turned.after touched fun v ne => (reshaped.infos v).trans (others v ne), record,
    (rects w (.inl rfl)).trans rect, fun v plain apart => ?_, fun same v plain => ?_⟩
  · rw [rects v (.inr plain), ← unmoved v]
    refine rect_of_surface (reshaped.outside v plain ?_)
    rwa [show m₁.parentOf = s.manager.parentOf from funext begun.sameStructure.parents]
  · rw [rects v (.inr plain), still same, unmoved]

theorem ensures_applyWorkspaceVisibleTo (sound : s.Sound) (here : s.manager.info? w = some info)
    (flagged : (s.policyData w).inHiddenWorkspace) :
    (applyWorkspaceVisibleTo fuel w).Ensures s (fun _ u => ∃ t,
        u = (s.setPolicyData w { s.policyData w with inHiddenWorkspace := false }).setManager t ∧
        Granted s.IsDecoration w (s.titlebar w) info (s.policyData w).oldState s.manager t)
      (fun _ _ => False) (s.manager.Short fuel) := by
  rw [applyWorkspaceVisibleTo, ensures_bind, ensures_managing, ensures_infoFor_here here,
    ensures_bind, ensures_state, ensures_onlyIf]
  refine ⟨fun _ => ?_, fun unflagged => absurd flagged unflagged⟩
  have kept : (s.setPolicyData w { s.policyData w with inHiddenWorkspace := false }).Sound :=
    ⟨sound.titled, sound.furnished⟩
  rw [ensures_bind, ensures_update]
  exact ensures_placeForState kept here id

theorem ensures_applyWorkspaceHiddenTo (sound : s.Sound) (here : s.manager.info? w = some info)
    (unflagged : (s.policyData w).inHiddenWorkspace = false) :
    (applyWorkspaceHiddenTo fuel w).Ensures s (fun _ u => ∃ t,
        u = (s.setPolicyData w ⟨true, info.state⟩).setManager t ∧
        Granted s.IsDecoration w (s.titlebar w) info .hidden s.manager t)
      (fun _ _ => False) (s.manager.Short fuel) := by
  rw [applyWorkspaceHiddenTo, ensures_bind, ensures_managing, ensures_infoFor_here here,
    ensures_bind, ensures_state, ensures_onlyIf]
  refine ⟨fun _ => ?_, fun flagged => absurd unflagged flagged⟩
  have kept : (s.setPolicyData w ⟨true, info.state⟩).Sound := ⟨sound.titled, sound.furnished⟩
  rw [ensures_bind, ensures_update]
  exact ensures_placeForState kept here id

end TitlebarPolicy

end Miral
