import Miral.FullscreenFrame
import Miral.StateFocus

/-! `set_state` under the titlebar policy, whose callback changes the titlebar of the window
through `set_state` again. All that this may do to other windows is to give one the focus. -/
namespace Miral

open Program Prog Forest Model

namespace Model

variable {d : Window → Prop} {s t u : Model} {w v x : Window} {info : WindowInfo}
  {value : WindowState} {F : List Window → List Window}

/-- The state is coherent, and the windows of a kind, `d`, cannot be active. -/
structure Furnished (d : Window → Prop) (s : Model) : Prop where
  coherent : s.Coherent
  gloss : ∀ v, d v → s.Managed v → s.typeOf v = some .gloss
  idle : ∀ v ∈ s.mruActiveWindows, ¬d v

/-- `t` is `s` but for the focus and for what the windows of the kind look like. -/
structure Redecorated (d : Window → Prop) (s t : Model) : Prop where
  infos : ∀ v, ¬d v → t.info? v = s.info? v
  surfaces : ∀ v, ¬d v → t.surface? v = s.surface? v
  parents : ∀ v, t.parentOf v = s.parentOf v
  children : ∀ v, t.childrenOf v = s.childrenOf v
  types : ∀ v, t.typeOf v = s.typeOf v
  workspaces : t.workspacesToWindows = s.workspacesToWindows
  living : t.liveWorkspaces = s.liveWorkspaces
  displays : t.displays = s.displays
  displayLayout : t.displayLayout = s.displayLayout

/-- What the callback leaves behind. A titlebar that is shown where no window is active may lead
the search for one to its window and beyond. -/
structure Advised (d : Window → Prop) (w : Window) (titlebar : Option Window)
    (value : WindowState) (s t : Model) : Prop where
  furnished : t.Furnished d
  redecorated : Redecorated d s t
  record : t.info? w = s.info? w
  surface : t.surface? w = s.surface? w
  focus : t.mruActiveWindows = s.mruActiveWindows ∨
    ¬value.concealed ∧ s.activeWindow = none ∧ ∃ v x, titlebar = some v ∧ t.Picks v (some x) ∧
      t.mruActiveWindows = promoted s.mruActiveWindows (some x)

namespace Redecorated

theorem refl : Redecorated d s s :=
  ⟨fun _ _ => rfl, fun _ _ => rfl, fun _ => rfl, fun _ => rfl, fun _ => rfl, rfl, rfl, rfl, rfl⟩

theorem trans (h : Redecorated d s t) (h' : Redecorated d t u) : Redecorated d s u where
  infos v plain := (h'.infos v plain).trans (h.infos v plain)
  surfaces v plain := (h'.surfaces v plain).trans (h.surfaces v plain)
  parents v := (h'.parents v).trans (h.parents v)
  children v := (h'.children v).trans (h.children v)
  types v := (h'.types v).trans (h.types v)
  workspaces := h'.workspaces.trans h.workspaces
  living := h'.living.trans h.living
  displays := h'.displays.trans h.displays
  displayLayout := h'.displayLayout.trans h.displayLayout

theorem emit {event : Event} : Redecorated d s (s.emit event) :=
  ⟨fun _ _ => rfl, fun _ _ => rfl, fun _ => rfl, fun _ => rfl, fun _ => rfl, rfl, rfl, rfl, rfl⟩

theorem marked : Redecorated d s (s.markFullscreen w value) := by
  rw [markFullscreen_eq]
  exact ⟨fun _ _ => rfl, fun _ _ => rfl, fun _ => rfl, fun _ => rfl, fun _ => rfl, rfl, rfl, rfl, rfl⟩

theorem cached (kind : d w) {tmp : WindowInfo} (touched : Retouched s (s.setInfo w tmp)) :
    Redecorated d s (s.setInfo w tmp) where
  infos v plain := by
    have ne : v ≠ w := fun eq => plain (eq ▸ kind)
    rw [info?_setInfo, if_neg ne]
  surfaces _ _ := rfl
  parents := touched.sameStructure.parents
  children := touched.sameStructure.children
  types := touched.types
  workspaces := rfl
  living := rfl
  displays := rfl
  displayLayout := rfl

theorem stated (kind : d w) (here : s.info? w = some info) (stated : Stated w info value s t) :
    Redecorated d s t where
  infos v plain := by
    have ne : v ≠ w := fun eq => plain (eq ▸ kind)
    rw [stated.info?, if_neg ne]
  surfaces v plain := by
    have ne : v ≠ w := fun eq => plain (eq ▸ kind)
    rw [stated.surface?, if_neg ne]
  parents _ := stated.parentOf here
  children _ := stated.childrenOf here
  types _ := stated.typeOf here
  workspaces := stated.rest.1
  living := stated.rest.2.1
  displays := stated.rest.2.2.1
  displayLayout := stated.rest.2.2.2

end Redecorated

theorem Stated.mru (stated : Stated w info value s t) :
    t.mruActiveWindows = s.mruActiveWindows ∨
      ∃ x, t.Focusable x ∧ t.mruActiveWindows = promoted s.mruActiveWindows (some x) := by
  by_cases concealed : value.concealed
  · by_cases active : s.activeWindow = some w
    · obtain ⟨r, search, mru⟩ := stated.yielded concealed active
      cases r with
      | none => exact .inl mru
      | some x => exact .inr ⟨x, search.focusable, mru⟩
    · exact .inl (stated.kept (fun _ => active) fun visible => absurd concealed visible)
  · by_cases moves : info.state.concealed ∧ s.activeWindow = none
    · obtain ⟨r, picks, mru⟩ := stated.taken concealed moves.1 moves.2
      cases r with
      | none => exact .inl mru
      | some x => exact .inr ⟨x, picks.focusable x rfl, mru⟩
    · exact .inl (stated.kept (fun hides => absurd hides concealed) fun _ => moves)

namespace Furnished

variable (furnished : s.Furnished d)

include furnished

theorem plain (types : ∀ v, t.typeOf v = s.typeOf v) (focusable : t.Focusable x) : ¬d x := by
  obtain ⟨info, here, active, -⟩ := focusable
  intro kind
  have managed := (managed_of_types (types x)).mp (managed_iff.mpr ⟨info, here⟩)
  have type := (types x).trans (furnished.gloss x kind managed)
  rw [typeOf_eq here] at type
  rw [Option.some.inj type] at active
  contradiction

theorem inactive (kind : d w) : s.activeWindow ≠ some w :=
  fun active => furnished.idle w (activeWindow_mem active) kind

theorem of_types (coherent : t.Coherent) (types : ∀ v, t.typeOf v = s.typeOf v)
    (idle : ∀ v ∈ t.mruActiveWindows, ¬d v) : t.Furnished d where
  coherent := coherent
  gloss v kind managed :=
    (types v).trans (furnished.gloss v kind ((managed_of_types (types v)).mp managed))
  idle := idle

theorem emit {event : Event} : (s.emit event).Furnished d := by
  have integrity : (s.emits [event]).Integrity := furnished.coherent.integrity.emits
  exact furnished.of_types ⟨integrity, furnished.coherent.synced, furnished.coherent.hides,
    furnished.coherent.posted⟩ (fun _ => rfl) furnished.idle

theorem marked (here : s.info? w = some info) : (s.markFullscreen w info.state).Furnished d := by
  have integrity := furnished.coherent.integrity.marked here
  have types (v : Window) : (s.markFullscreen w info.state).typeOf v = s.typeOf v := by
    simp [typeOf]
  revert integrity types
  rw [markFullscreen_eq]
  exact fun integrity types => furnished.of_types ⟨integrity, furnished.coherent.synced,
    furnished.coherent.hides, furnished.coherent.posted⟩ types furnished.idle

theorem undisturbed (same : Undisturbed s t) (integrity : t.Integrity)
    (types : ∀ v, t.typeOf v = s.typeOf v) : t.Furnished d :=
  furnished.of_types (furnished.coherent.undisturbed same integrity) types
    (by rw [same.mru]; exact furnished.idle)

theorem retouched (touched : Retouched s t) : t.Furnished d :=
  furnished.undisturbed touched.undisturbed (touched.integrity furnished.coherent.integrity)
    touched.types

theorem stated (here : s.info? w = some info) (stated : Stated w info value s t) :
    t.Furnished d := by
  refine furnished.of_types (furnished.coherent.stated here stated)
    (fun _ => stated.typeOf here) fun v member => ?_
  rcases stated.mru with same | ⟨x, focusable, mru⟩
  · exact furnished.idle v (same ▸ member)
  · rw [mru] at member
    rcases List.mem_append.mp member with kept | new
    · exact furnished.idle v (List.mem_of_mem_filter kept)
    · obtain rfl := List.mem_singleton.mp new
      exact furnished.plain (fun _ => stated.typeOf here) focusable

end Furnished

theorem retouched_cached (here : s.info? w = some info) {newState : Option WindowState} :
    Retouched s (s.setInfo w (s.cachedInfo w info newState)) := by
  obtain ⟨rect, eq⟩ := s.cachedInfo_eq w info newState
  rw [eq]
  exact .setInfo here rfl rfl rfl rfl

/-- The change of the set of fullscreen windows that `set_state` begins with. -/
def marking (w : Window) (value : WindowState) (L : List Window) : List Window :=
  if value ≠ .fullscreen then L.filter (· ≠ w) else if w ∈ L then L else L ++ [w]

theorem markFullscreen_eq_with :
    s.markFullscreen w value = s.withFullscreen (marking w value) := by
  unfold markFullscreen withFullscreen marking
  split <;> rfl

theorem filter_marking (ne : v ≠ w) (L : List Window) :
    (marking w value L).filter (· ≠ v) = marking w value (L.filter (· ≠ v)) := by
  have ne' : w ≠ v := Ne.symm ne
  unfold marking
  split
  · rw [List.filter_filter, List.filter_filter]
    exact List.filter_congr fun _ _ => Bool.and_comm _ _
  · by_cases here : w ∈ L
    · simp [here, ne']
    · simp [here, ne', List.filter_append]

theorem markFullscreen_marking {value' : WindowState} (ne : v ≠ w) (flat : value' ≠ .fullscreen) :
    (s.withFullscreen (marking w value)).markFullscreen v value' =
      (s.markFullscreen v value').withFullscreen (marking w value) := by
  rw [markFullscreen, markFullscreen, if_pos flat, if_pos flat]
  unfold withFullscreen eraseFullscreen
  rw [filter_marking ne]

end Model

section Rules

variable {s : Model} {w : Window} {info : WindowInfo} {value : WindowState} {fuel : Nat}
  {error : Failure → Model → Prop} {short : Prop}

/-- A request for a state, with or without a place for the window, asks for nothing before the
geometry but to bring the restore rectangle up to date. -/
theorem ensures_beginModification (here : s.info? w = some info) {topLeft : Option Point}
    {size : Option Size} {newState : Option WindowState} {post : Unit → Model → Prop} :
    (beginModification w { state := newState, topLeft := topLeft, size := size }).Ensures s post
      error short ↔ post () (s.setInfo w (s.cachedInfo w info newState)) := by
  have filled : info.copyIfSet { state := newState, topLeft := topLeft, size := size } = info := by
    simp [WindowInfo.copyIfSet]
  have twice (info' : WindowInfo) : (s.setInfo w info).setInfo w info' = s.setInfo w info' := by
    simp [Model.setInfo]
  have rect : (s.setInfo w info).rect w = s.rect w := rfl
  rw [beginModification, ensures_bind, requestedInfo, ensures_bind, ensures_infoFor_here here,
    filled, ensures_bind, copyParent, ensures_pure, ensures_bind, ensures_state,
    WindowInfo.checkMorph, if_pos rfl]
  change Prog.Ensures (pure info) s _ _ _ ↔ _
  rw [ensures_pure, ensures_bind, swapInfo, ensures_bind, ensures_infoFor_here here, ensures_bind,
    ensures_setInfo]
  simp only [ensures_bind, ensures_onlyIf, relink, ne_eq, not_true_eq_false, false_implies,
    not_false_eq_true, forall_const, true_and, updateSurface, whenSome, ensures_pure]
  cases newState with
  | none => exact Iff.rfl
  | some newState =>
    have there : (s.setInfo w info).info? w = some info := by simp
    simp only [cacheRestoreRect, whenSome, ensures_bind, ensures_infoFor_here there, ensures_state,
      ensures_onlyIf, ensures_setInfo, twice, rect, cachedInfo]
    by_cases same : info.state = newState <;> simp [same]

/-- What is left of `set_state` after the callback. -/
theorem ensures_finishState (coherent : s.Coherent) (here : s.info? w = some info) :
    (finishState fuel w info.state value).Ensures (s.markFullscreen w value)
      (fun _ t => Stated w info value s t) (fun _ _ => False) (s.Short fuel) := by
  have marked : (s.markFullscreen w value).info? w = some info := by simpa using here
  have integrity : (s.restated w info value).Integrity := coherent.integrity.restated here
  have parents (v : Window) : (s.restated w info value).parentOf v = s.parentOf v := by
    rw [parentOf, info?_restated, parentOf]
    by_cases eq : v = w <;> simp [eq, here]
  have active : (s.markFullscreen w value).activeWindow = s.activeWindow := by
    rw [markFullscreen_eq]
    rfl
  rw [finishState, ensures_ite]
  constructor
  · intro concealed
    rw [ensures_bind, ensures_modifyInfo_here marked, ensures_bind, ensures_state, ensures_bind,
      ensures_onlyIf]
    constructor
    · intro seen
      change (s.restated w info value).activeWindow = some w at seen
      have seen' := activeWindow_restated.symm.trans seen
      have unseen : ¬(s.restated w info value).Focusable w := by
        rintro ⟨info', there, -, visible⟩
        rw [info?_restated, if_pos rfl] at there
        obtain rfl := Option.some.inj there
        unfold isVisible at visible
        split at visible <;> simp_all
      have shown (x : Window) (focusable : (s.restated w info value).Focusable x) :
          (s.restated w info value).visible x := by
        have entered : (s.entered w info value).Focusable x :=
          (focusable_congr (fun v => by simp) fun v => by simp).mp focusable
        simpa [Model.visible] using
          (visible_of_focusable_entered coherent.synced concealed entered).2
      refine (ensures_moveFocusFrom integrity seen unseen shown).mono ?_ (fun _ _ h => h)
        (Short.congr parents)
      intro _ t after
      rcases after with ⟨r, search, found, missed⟩
      exact .yields concealed seen' search found missed
    · intro unseen
      refine .hides concealed fun seen => unseen ?_
      exact activeWindow_restated.trans seen
  · intro visible
    simp only [ensures_bind, ensures_state, ensures_modifyInfo_here marked, ensures_configure,
      ensures_onlyIf, active]
    constructor
    · rintro ⟨concealed, inactive⟩
      have managed : (s.restated w info value).Managed w :=
        managed_iff.mpr ⟨{ info with state := value }, by simp⟩
      have live : ((s.restated w info value).drawn w value false).Live w :=
        (sameStructure_drawn.live w).mpr ((integrity.live w).mpr managed)
      refine (ensures_selectActiveWindow integrity.drawn live).mono ?_ (fun _ _ h => h)
        (Short.congr fun v => (sameStructure_drawn.parents v).trans (parents v))
      intro r t after
      rcases after with ⟨picks, selected⟩
      exact .takes visible concealed inactive picks selected
    · exact fun stays => .shows visible stays

end Rules

namespace Shell

/-- Titlebars are windows of the decoration provider, and none of these has one itself. -/
def Titled (s : Shell) : Prop :=
  ∀ w titlebar, s.titlebar w = some titlebar → ¬s.IsDecoration w ∧ s.IsDecoration titlebar

end Shell

namespace TitlebarPolicy

variable {α : Type} {s : Shell} {m t : Model} {w : Window} {info : WindowInfo}
  {value : WindowState} {fuel : Nat} {error : Failure → Shell → Prop} {short : Prop}
  {F : List Window → List Window} {advise : Window → WindowState → TitlebarPolicy Unit}

@[simp] theorem ensures_managing {p : Manager α} {post : α → Shell → Prop} :
    (managing p).Ensures s post error short ↔
      p.Ensures s.manager (fun a t => post a (s.setManager t))
        (fun e t => error e (s.setManager t)) short := ensures_zoom

/-- One rule for `set_state`, given what the callback does. The set of fullscreen windows may
be another one all the while. -/
theorem ensures_setState {post : Unit → Shell → Prop} (here : m.info? w = some info)
    (own : (m.withFullscreen F).markFullscreen w value =
      (m.markFullscreen w value).withFullscreen F)
    (same : info.state = value →
      post () (s.setManager ((m.markFullscreen w value).withFullscreen F)))
    (changed : info.state ≠ value → (advise w value).Ensures (s.setManager
        (((m.emit (.adviseStateChange w value)).markFullscreen w value).withFullscreen F))
      (fun _ u => ∃ t, u = s.setManager ((t.markFullscreen w value).withFullscreen F) ∧
        t.Coherent ∧ t.info? w = some info ∧ (t.Short fuel → short) ∧
        ∀ t', Stated w info value t t' → post () (s.setManager (t'.withFullscreen F)))
      error short) :
    (setState advise fuel w value).Ensures (s.setManager (m.withFullscreen F)) post error
      short := by
  have there : (m.withFullscreen F).info? w = some info := here
  have begun : ((m.withFullscreen F).markFullscreen w value).emit (.adviseStateChange w value) =
      ((m.emit (.adviseStateChange w value)).markFullscreen w value).withFullscreen F := by
    rw [own]
    unfold markFullscreen
    split <;> rfl
  rw [setState, ensures_bind, ensures_managing]
  change (infoFor w).Ensures (m.withFullscreen F) _ _ _
  rw [ensures_infoFor_here there, ensures_bind, ensures_managing, ensures_update, ensures_onlyIf]
  constructor
  · intro differs
    rw [ensures_bind, ensures_managing, ensures_emit]
    change Prog.Ensures _ (s.setManager
      (((m.withFullscreen F).markFullscreen w value).emit (.adviseStateChange w value))) _ _ _
    rw [begun]
    apply (changed differs).bind
    intro _ _ after
    rcases after with ⟨t, rfl, coherent, record, exhausts, done⟩
    rw [ensures_managing]
    apply commutes_finishState.ensures
    exact (ensures_finishState coherent record).mono (fun _ t' stated => done t' stated)
      (fun _ _ h => h.elim) exhausts
  · intro unchanged
    have last := same (not_not.mp unchanged)
    rw [← own] at last
    exact last

theorem ensures_adviseStateChange_plain {depth : Nat} {post : Unit → Shell → Prop}
    (plain : s.titlebar w = none) (shallow : depth = 0 → short) (done : post () s) :
    (adviseStateChange fuel depth w value).Ensures s post error short := by
  cases depth with
  | zero => exact shallow rfl
  | succ depth =>
    rw [adviseStateChange, ensures_bind, ensures_state, plain]
    exact done

theorem ensures_modifyWindow_unplaced {post : Unit → Shell → Prop} (here : m.info? w = some info) :
    (modifyWindowWith advise fuel w { state := some value }).Ensures (s.setManager m) post error
      short ↔ (setState advise fuel w value).Ensures
        (s.setManager (m.setInfo w (m.cachedInfo w info (some value)))) post error short := by
  have there : (m.setInfo w (m.cachedInfo w info (some value))).info? w =
    some (m.cachedInfo w info (some value)) := by simp
  have idle : WindowSpecification.constrains { state := some value } = false := rfl
  rw [modifyWindowWith, ensures_bind, ensures_managing]
  change (beginModification w { state := some value }).Ensures m _ _ _ ↔ _
  rw [ensures_beginModification here, ensures_bind, updateGeometry, ensures_bind, ensures_managing]
  change (infoFor w).Ensures (m.setInfo w (m.cachedInfo w info (some value))) _ _ _ ↔ _
  rw [ensures_infoFor_here there, ensures_bind, ensures_state]
  simp only [idle, Bool.false_eq_true, ↓reduceIte, Option.isSome_none, ensures_onlyIf,
    updatePlacement, ensures_bind, whenSome, ensures_pure, false_implies, true_and,
    not_false_eq_true, forall_const]
  exact Iff.rfl

theorem ensures_adviseStateChange {depth : Nat} (titled : s.Titled)
    (furnished : m.Furnished s.IsDecoration) (shallow : depth < 2 → short)
    (exhausts : m.Short fuel → short) :
    (adviseStateChange fuel depth w value).Ensures (s.setManager (m.markFullscreen w value))
      (fun _ u => ∃ t, u = s.setManager (t.markFullscreen w value) ∧
        Advised s.IsDecoration w (s.titlebar w) value m t) (fun _ _ => False) short := by
  cases depth with
  | zero => exact shallow (by decide)
  | succ depth =>
    rw [adviseStateChange, ensures_bind, ensures_state]
    change (whenSome ((m.markFullscreen w value).lock (s.titlebar w)) _).Ensures _ _ _ _
    have locked : (m.markFullscreen w value).lock (s.titlebar w) = m.lock (s.titlebar w) := by
      rw [markFullscreen_eq]
      rfl
    rw [locked, ensures_whenSome]
    refine ⟨fun v target => ?_, fun _ =>
      ⟨m, rfl, furnished, .refl, rfl, rfl, .inl rfl⟩⟩
    obtain ⟨bar, live⟩ := lock_eq_some.mp target
    obtain ⟨plain, kind⟩ := titled w v bar
    have bare : s.titlebar v = none := by
      cases own : s.titlebar v with
      | none => rfl
      | some _ => exact absurd kind (titled v _ own).1
    have ne : v ≠ w := by
      rintro rfl
      exact plain kind
    obtain ⟨info, here⟩ :=
      furnished.coherent.integrity.info_of_live live
    have flat : value.ofTitlebar ≠ .fullscreen := by cases value <;> decide
    have there : (m.withFullscreen (marking w value)).info? v = some info := here
    rw [markFullscreen_eq_with, ensures_modifyWindow_unplaced there]
    change (setState _ fuel v _).Ensures (s.setManager ((m.setInfo v (m.cachedInfo v info
      (some value.ofTitlebar))).withFullscreen (marking w value))) _ _ _
    have touched : Retouched m (m.setInfo v (m.cachedInfo v info (some value.ofTitlebar))) :=
      retouched_cached here
    have cached : (m.setInfo v (m.cachedInfo v info (some value.ofTitlebar))).info? v =
      some (m.cachedInfo v info (some value.ofTitlebar)) := by simp
    have redecorated := Redecorated.cached kind touched
    have furnished₁ := furnished.retouched touched
    have active := touched.undisturbed.activeWindow
    have mru := touched.undisturbed.mru
    revert touched cached redecorated furnished₁ active mru
    generalize m.cachedInfo v info (some value.ofTitlebar) = info₁
    generalize m.setInfo v info₁ = m₁
    intro touched cached redecorated furnished₁ active mru
    have same (t : Model) (redecorated : Redecorated s.IsDecoration m t) :
        t.info? w = m.info? w ∧ t.surface? w = m.surface? w :=
      ⟨redecorated.infos w plain, redecorated.surfaces w plain⟩
    apply ensures_setState cached (markFullscreen_marking ne flat)
    · intro stays
      rw [← stays]
      have marked : Redecorated s.IsDecoration m (m₁.markFullscreen v info₁.state) :=
        redecorated.trans .marked
      refine ⟨m₁.markFullscreen v info₁.state, congrArg s.setManager markFullscreen_eq_with.symm,
        furnished₁.marked cached, marked, (same _ marked).1, (same _ marked).2, .inl ?_⟩
      rw [← mru, markFullscreen_eq]
    · intro _
      refine ensures_adviseStateChange_plain bare (fun zero => shallow (by omega)) ?_
      refine ⟨m₁.emit (.adviseStateChange v value.ofTitlebar), rfl, furnished₁.emit.coherent, cached,
        fun short => exhausts (short.congr touched.sameStructure.parents), fun t stated => ?_⟩
      have decorated : Redecorated s.IsDecoration m t :=
        redecorated.trans (Redecorated.emit.trans (.stated kind cached stated))
      refine ⟨t, congrArg s.setManager markFullscreen_eq_with.symm,
        furnished₁.emit.stated cached stated, decorated, (same _ decorated).1, (same _ decorated).2, ?_⟩
      by_cases moves : ¬value.ofTitlebar.concealed ∧ info₁.state.concealed ∧ m₁.activeWindow = none
      · obtain ⟨r, picks, moved⟩ := stated.taken moves.1 moves.2.1 moves.2.2
        cases r with
        | none => exact .inl (moved.trans mru)
        | some x =>
          refine .inr ⟨fun concealed => moves.1 ?_, active.symm.trans moves.2.2, v, x, bar, picks,
            moved.trans (congrArg (promoted · (some x)) mru)⟩
          cases value <;> first | rfl | contradiction
      · refine .inl ((stated.kept (fun _ => ?_) fun visible moved => ?_).trans mru)
        · exact furnished₁.emit.inactive kind
        · exact moves ⟨visible, moved⟩

end TitlebarPolicy

end Miral
