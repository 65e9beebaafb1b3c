import Miral.TilingPolicy
import Miral.Rotation

/-! Giving the windows of an application a new tile: `update_surfaces` carries each of them over
and clips it, which leaves something of it if and only if its corner is still in the tile. -/
namespace Miral

open Program Prog Forest Model

namespace Tiling

variable {data : Application → TilingWindowManagerPolicyData} {s t u : Model} {w v : Window}
  {info : WindowInfo} {fuel : Nat}

/-- Only the geometry of windows has changed, and what is reported of it. -/
structure Rearranged (s t : Model) : Prop where
  integrity : t.Integrity
  undisturbed : Undisturbed s t
  parents : t.parentOf = s.parentOf

theorem requested_sized {tmp : WindowInfo} {topLeft : Option Point} {size : Option Size} :
    Requested s { topLeft := topLeft, size := size } info tmp ↔ tmp = info := by
  have same : info.requestedBy { topLeft := topLeft, size := size } = info := by
    simp [WindowInfo.requestedBy, WindowInfo.copyIfSet]
  constructor
  · intro requested
    have ok := requested.checked
    rw [same, WindowInfo.checkMorph, if_pos rfl] at ok
    exact (Except.ok.inj ok).symm
  · rintro rfl
    refine ⟨fun weak asks => by simp at asks, ?_⟩
    rw [same, WindowInfo.checkMorph, if_pos rfl]

namespace Rearranged

theorem refl (integrity : s.Integrity) : Rearranged s s := ⟨integrity, .refl, rfl⟩

theorem trans (h : Rearranged s t) (h' : Rearranged t u) : Rearranged s u where
  integrity := h'.integrity
  undisturbed := h.undisturbed.trans h'.undisturbed
  parents := h'.parents.trans h.parents

end Rearranged

/-- A request for a place and a size gives a parentless window these, and leaves alone what is
not below it. -/
theorem ensures_modifyWindow_sized (integrity : s.Integrity) (here : s.info? w = some info)
    (root : s.parentOf w = none) (rect : Rectangle) :
    (modifyWindow data fuel w { topLeft := some rect.topLeft, size := some rect.size }).Ensures s
      (fun _ t => Rearranged s t ∧ t.rect w = rect ∧
        ∀ v, ¬Above s.parentOf w v → t.rect v = s.rect v)
      (fun _ _ => False) (∃ v, climb s.parentOf fuel v = some w) := by
  rw [modifyWindow, modifyWindowWith, ensures_bind]
  refine (ensures_requestedInfo here).mono ?_ ?_ id
  rotate_left
  · intro failure t after
    rcases after with ⟨rfl, refused⟩
    exact refused info (requested_sized.mpr rfl)
  intro tmp t after
  rcases after with ⟨rfl, requested⟩
  obtain rfl := requested_sized.mp requested
  apply ensures_prepare integrity here requested
  intro s₃ prepared rects
  have parents : s₃.parentOf = t.parentOf :=
    funext fun v => prepared.parents_kept (parentOf_eq here).symm
  have live : s₃.Live w := (prepared.integrity.live w).mpr
    (managed_iff.mpr ⟨_, prepared.record⟩)
  rw [updateGeometryWith, ensures_bind, ensures_bind, ensures_infoFor_here prepared.record,
    ensures_bind, ensures_state]
  dsimp only [Option.getD_some]
  refine (ensures_placeAndSize prepared.integrity live rect).mono ?_ (fun _ _ h => h) ?_
  · intro _ u after
    rcases after with ⟨moved, -, -, placed⟩
    rw [parents] at placed
    have same : Prepared w _ tmp t u := prepared.moved moved
    refine ⟨⟨same.integrity, same.undisturbed, ?_⟩, placed (.of_root root), fun v apart => ?_⟩
    · rw [moved.parentOf, parents]
    · rw [← parents] at apart
      rw [moved.rect_outside apart, rects]
  · rw [parents]
    exact id

/-- Each parentless window is carried over once, and none of them moves another. -/
theorem ensures_updateSurfaces (oldTile newTile : Rectangle) (integrity : s.Integrity)
    {windows : List Window} (single : windows.Nodup) (managed : ∀ w ∈ windows, s.Managed w) :
    (updateSurfaces data fuel windows oldTile newTile).Ensures s
      (fun _ t => Rearranged s t ∧ ∀ v, s.parentOf v = none →
        t.rect v = if v ∈ windows then retiled oldTile newTile (s.rect v) else s.rect v)
      (fun _ _ => False)
      (∃ w v, s.parentOf w = none ∧ climb s.parentOf fuel v = some w) := by
  induction windows generalizing s with
  | nil => exact ⟨.refl integrity, fun v _ => by simp⟩
  | cons w rest ih =>
    obtain ⟨fresh, distinct⟩ := List.nodup_cons.mp single
    have here : s.Managed w := managed w (by simp)
    obtain ⟨info, record⟩ := managed_iff.mp here
    have live : s.Live w := (integrity.live w).mpr here
    rw [updateSurfaces, forEach, ensures_bind, ensures_bind, ensures_state, ensures_onlyIf,
      ensures_bind, ensures_infoFor_here record, ensures_onlyIf, integrity.lock_parent record]
    have goOn (t : Model) (same : Rearranged s t) (placed : ∀ v, s.parentOf v = none →
        t.rect v = if v = w then retiled oldTile newTile (s.rect v) else s.rect v) :
        (updateSurfaces data fuel rest oldTile newTile).Ensures t
          (fun _ u => Rearranged s u ∧ ∀ v, s.parentOf v = none →
            u.rect v = if v ∈ w :: rest then retiled oldTile newTile (s.rect v) else s.rect v)
          (fun _ _ => False)
          (∃ w v, s.parentOf w = none ∧ climb s.parentOf fuel v = some w) := by
      refine (ih same.integrity distinct fun v member =>
        (same.undisturbed.managed v).mpr (managed v (by simp [member]))).mono ?_
          (fun _ _ h => h) ?_
      · intro _ u after
        rcases after with ⟨same', placed'⟩
        refine ⟨same.trans same', fun v root => ?_⟩
        rw [placed' v (by rw [same.parents, root]), placed v root]
        by_cases eq : v = w
        · subst eq
          simp [fresh]
        · simp [eq]
      · rw [same.parents]
        exact id
    constructor
    · intro _
      constructor
      · intro orphan
        have root : s.parentOf w = none := (parentOf_eq record).trans orphan
        refine (ensures_modifyWindow_sized integrity record root _).mono ?_ (fun _ _ h => h) ?_
        · intro _ t after
          rcases after with ⟨same, placed, others⟩
          refine goOn t same fun v top => ?_
          by_cases eq : v = w
          · rw [if_pos eq, eq, placed]
          · rw [if_neg eq]
            exact others v fun above => eq (above.eq_of_root top).symm
        · intro deep
          rcases deep with ⟨v, reached⟩
          exact ⟨w, v, root, reached⟩
      · intro linked
        refine goOn s (.refl integrity) fun v root => ?_
        rw [if_neg]
        rintro rfl
        exact linked ((parentOf_eq record).symm.trans root)
    · intro dead
      exact absurd live dead

theorem exists_height (s : Model) : ∃ n, ∀ fuel, n ≤ fuel →
    ¬∃ w v, s.parentOf w = none ∧ climb s.parentOf fuel v = some w := by
  classical
  have rooted : ∀ v ∈ s.windowInfo.keys.filter (Rooted s.parentOf ·), Rooted s.parentOf v := by
    intro v member
    exact of_decide_eq_true (List.mem_filter.mp member).2
  obtain ⟨n, bound⟩ := Forest.exists_depth _ rooted
  refine ⟨n + 1, fun fuel enough deep => ?_⟩
  rcases deep with ⟨w, v, root, reached⟩
  have rooted : Rooted s.parentOf v := by
    refine ⟨fuel + 1, ?_⟩
    rw [climb_add, reached]
    exact climb_root root 0
  cases link : s.parentOf v with
  | none =>
    rw [climb_none_mono (climb_root link 0) (by omega)] at reached
    contradiction
  | some p =>
    have listed : v ∈ s.windowInfo.keys :=
      AList.mem_keys.mp (AList.lookup_isSome.mp (managed_of_parentOf link))
    have ended := bound v (List.mem_filter.mpr ⟨listed, decide_eq_true rooted⟩)
    rw [climb_none_mono ended (Nat.le_of_succ_le enough)] at reached
    contradiction

theorem retiled_usable {oldTile newTile window : Rectangle} (usable : newTile.size.Positive)
    (sized : window.size.Positive) (inside : oldTile.contains window) :
    ((retiled oldTile newTile window).size.Positive ∧
      newTile.contains (retiled oldTile newTile window)) ↔
      window.left - oldTile.left < newTile.size.width ∧
        window.top - oldTile.top < newTile.size.height := by
  have positive (size : Size) : size.Positive ↔ 0 < size.width ∧ 0 < size.height :=
    ⟨fun h => ⟨h.wide, h.tall⟩, fun h => ⟨h.1, h.2⟩⟩
  rw [Rectangle.contains_iff] at inside ⊢
  rw [positive] at usable sized ⊢
  simp only [retiled, Rectangle.left, Rectangle.right, Rectangle.top, Rectangle.bottom,
    Point.add_x, Point.add_y, Point.sub_dx, Point.sub_dy] at *
  split <;> split <;> omega

end Tiling

open Tiling

variable {s : Model} {app : ApplicationInfo} {a : Application} {newTile : Rectangle}

/-- `update_surfaces` returns with enough fuel, and leaves a parentless window usable if and only
if its corner, carried over, is still a corner of something in the new tile. -/
theorem retiling_usable (data : Application → TilingWindowManagerPolicyData) (oldTile : Rectangle)
    (integrity : s.Integrity) (here : s.app? a = some app) (usable : newTile.size.Positive) :
    ∃ n, ∀ fuel, n ≤ fuel → ∃ t,
      updateSurfaces data fuel app.windows oldTile newTile s = .returned () t ∧
      ∀ w ∈ app.windows, s.parentOf w = none → (s.size w).Positive →
        oldTile.contains (s.rect w) →
        (((t.size w).Positive ∧ newTile.contains (t.rect w)) ↔
          (s.topLeft w).x - oldTile.left < newTile.size.width ∧
            (s.topLeft w).y - oldTile.top < newTile.size.height) := by
  obtain ⟨n, enough⟩ := exists_height s
  refine ⟨n, fun fuel le => ?_⟩
  have listed : s.windowsOf a = app.windows := windowsOf_eq here
  obtain ⟨_, t, run, -, placed⟩ := (ensures_updateSurfaces oldTile newTile integrity
    (listed ▸ integrity.windowsOf_nodup) fun w member => by
      rw [← listed] at member
      exact ((integrity.mem_windowsOf).mp member).1).returns (enough fuel le)
  refine ⟨t, run, fun w member root sized inside => ?_⟩
  have there := placed w root
  rw [if_pos member] at there
  have usableThere := retiled_usable usable sized inside
  rw [← there] at usableThere
  exact usableThere

theorem rect_singleState : singleState.topLeft ⟨1, 1⟩ = ⟨270, 134⟩ ∧
    singleState.size ⟨1, 1⟩ = ⟨100, 80⟩ ∧ singleState.parentOf ⟨1, 1⟩ = none ∧
    singleState.app? 1 = some ⟨[⟨1, 1⟩]⟩ := by
  refine ⟨by decide +kernel, by decide +kernel, by decide +kernel, by decide +kernel⟩

/-- From the whole display to the upper one of the tiles at its right. -/
theorem retiling_usable_clipped : ∃ fuel t,
    updateSurfaces (fun _ => ⟨default, default⟩) fuel [⟨1, 1⟩] ⟨⟨0, 0⟩, ⟨640, 480⟩⟩
      ⟨⟨320, 0⟩, ⟨320, 160⟩⟩ singleState = .returned () t ∧ (t.size ⟨1, 1⟩).Positive ∧
        (⟨⟨320, 0⟩, ⟨320, 160⟩⟩ : Rectangle).contains (t.rect ⟨1, 1⟩) := by
  have integrity : singleState.Integrity := (reachable_singleState.mono fun _ _ h => h.1).integrity
  obtain ⟨topLeft, size, root, here⟩ := rect_singleState
  have usable : (⟨⟨320, 0⟩, ⟨320, 160⟩⟩ : Rectangle).size.Positive := ⟨by decide, by decide⟩
  obtain ⟨n, returns⟩ := retiling_usable (fun _ => ⟨default, default⟩) ⟨⟨0, 0⟩, ⟨640, 480⟩⟩
    integrity here usable
  obtain ⟨t, run, kept⟩ := returns n le_rfl
  have clipped := kept ⟨1, 1⟩ (by simp) root
  rw [rect, topLeft, size] at clipped
  exact ⟨n, t, run, (clipped ⟨by decide, by decide⟩ (by decide)).mpr ⟨by decide, by decide⟩⟩

/-- A window whose corner is further down than the new tile is high. -/
theorem retiling_usable_fails : ¬∀ (s t : Model) data fuel app a (oldTile newTile : Rectangle) w,
    s.Integrity → s.app? a = some app → oldTile.size.Positive → newTile.size.Positive →
      updateSurfaces data fuel app.windows oldTile newTile s = .returned () t →
      w ∈ app.windows → s.parentOf w = none → (s.size w).Positive → oldTile.contains (s.rect w) →
      (t.size w).Positive ∧ newTile.contains (t.rect w) := by
  intro claim
  have integrity : singleState.Integrity := (reachable_singleState.mono fun _ _ h => h.1).integrity
  obtain ⟨topLeft, sized, root, here⟩ := rect_singleState
  let tiles : Application → TilingWindowManagerPolicyData := fun _ => ⟨default, default⟩
  have shrunk : ((updateSurfaces tiles 5 [⟨1, 1⟩] ⟨⟨0, 0⟩, ⟨640, 480⟩⟩ ⟨⟨320, 0⟩, ⟨320, 120⟩⟩
      singleState).returned?.map (·.size ⟨1, 1⟩)) = some ⟨50, -14⟩ := by decide +kernel
  obtain ⟨t, returned, size⟩ := Option.map_eq_some_iff.mp shrunk
  obtain ⟨_, run⟩ := Outcome.returned?_eq_some.mp returned
  have usable := claim singleState t tiles 5 ⟨[⟨1, 1⟩]⟩ 1 ⟨⟨0, 0⟩, ⟨640, 480⟩⟩
    ⟨⟨320, 0⟩, ⟨320, 120⟩⟩ ⟨1, 1⟩ integrity here ⟨by decide, by decide⟩ ⟨by decide, by decide⟩ run
    (by simp) root
  rw [rect, topLeft, sized] at usable
  have tall := (usable ⟨by decide, by decide⟩ (by decide)).1.tall
  rw [size] at tall
  exact absurd tall (by decide)

end Miral
