import Miral.Tiling
import Miral.RequestGeometry

/-! `TilingWindowManagerPolicy` at work on the windows of its tiles. `modify_window` is that of
the manager, but for `confirm_inherited_move`, which keeps a child inside its tile. What the
policy does when a window gains the focus, beside raising its tree, moves no window. -/
namespace Miral

open Program Prog Forest Model

structure Size.Positive (size : Size) : Prop where
  wide : 0 < size.width
  tall : 0 < size.height

namespace Tiling

variable (data : Application → TilingWindowManagerPolicyData)

/-- `tile_for`. -/
def tileFor (info : WindowInfo) : Rectangle := (data (info.userdata.getD 0)).tile

/-- `constrain_size_and_place`; `window` is where the window is now. -/
def constrainSizeAndPlace (mods : WindowSpecification) (window tile : Rectangle) :
    WindowSpecification :=
  let size := mods.size.map fun size =>
    (⟨min tile.size.width size.width, min tile.size.height size.height⟩ : Size)
  let asked := mods.topLeft.map fun topLeft =>
    (⟨max tile.topLeft.x topLeft.x, max tile.topLeft.y topLeft.y⟩ : Point)
  let topLeft := asked.getD window.topLeft
  let bottomRight := topLeft + asDisplacement (size.getD window.size)
  let overhang := bottomRight - tile.bottomRight
  let topLeft : Point :=
    ⟨if overhang.dx > 0 then topLeft.x - overhang.dx else topLeft.x,
      if overhang.dy > 0 then topLeft.y - overhang.dy else topLeft.y⟩
  { mods with size := size, topLeft := if topLeft ≠ window.topLeft then some topLeft else none }

/-- `confirm_inherited_move`. -/
def confirmInheritedMove (tile window : Rectangle) (movement : Displacement) : Rectangle :=
  let mods := constrainSizeAndPlace { topLeft := some (window.topLeft + movement) } window tile
  ⟨mods.topLeft.getD window.topLeft, mods.size.getD window.size⟩

/-- `place_and_size`, given how trees are moved. -/
def placeAndSizeWith (move : Window → Displacement → Manager Unit) (root : Window)
    (newPos : Point) (newSize : Size) : Manager Unit := do
  let s ← Prog.state
  Prog.onlyIf (s.size root ≠ newSize) do
    emit (.adviseResize root newSize)
    configure root ({ · with size := newSize })
  let s ← Prog.state
  move root (newPos - s.topLeft root)

/-- `move_tree`. -/
def moveTree : Nat → Window → Displacement → Manager Unit
  | 0, _, _ => Prog.exhaust
  | fuel + 1, root, movement =>
    if movement = ⟨0, 0⟩ then pure ()
    else do
      let info ← infoFor root
      let s ← Prog.state
      let topLeft := s.topLeft root + movement
      emit (.adviseMoveTo root topLeft)
      configure root ({ · with topLeft })
      Prog.forEach (fun child => do
        let childInfo ← infoFor child
        let s ← Prog.state
        let pos := confirmInheritedMove (tileFor data childInfo) (s.rect child) movement
        placeAndSizeWith (moveTree fuel) child pos.topLeft pos.size) info.children

/-- `place_and_size`. -/
def placeAndSize (fuel : Nat) : Window → Point → Size → Manager Unit :=
  placeAndSizeWith (moveTree data fuel)

/-- `modify_window`. -/
def modifyWindow (fuel : Nat) : Window → WindowSpecification → Manager Unit :=
  modifyWindowWith (placeAndSize data fuel) fuel

/-- `handle_modify_window`. -/
def handleModifyWindow (fuel : Nat) (w : Window) (modifications : WindowSpecification) :
    Manager Unit := do
  let info ← infoFor w
  let s ← Prog.state
  let mods := constrainSizeAndPlace modifications (s.rect w) (tileFor data info)
  modifyWindow data fuel w { mods with outputId := none }

/-- `modify_surface`. -/
def modifySurface (fuel : Nat) (w : Window) (modifications : SurfaceSpecification) :
    Manager Unit := do
  let info ← infoFor w
  let s ← Prog.state
  Prog.ofExcept (s.validateModificationRequest (.ofSurfaceSpecification modifications) info)
  handleModifyWindow data fuel w
    (s.placeAndSizeForState (.ofSurfaceSpecification modifications) w info)

/-- The rectangle `update_surfaces` computes for a window. -/
def retiled (oldTile newTile window : Rectangle) : Rectangle :=
  let newPos := window.topLeft + (newTile.topLeft - oldTile.topLeft)
  let offset := newPos - newTile.topLeft
  let scaledWidth :=
    if window.size.width = oldTile.size.width then newTile.size.width else window.size.width
  let scaledHeight :=
    if window.size.height = oldTile.size.height then newTile.size.height else window.size.height
  ⟨newPos, ⟨min (newTile.size.width - offset.dx) scaledWidth,
    min (newTile.size.height - offset.dy) scaledHeight⟩⟩

/-- `update_surfaces`, for the windows of an application. -/
def updateSurfaces (fuel : Nat) (windows : List Window) (oldTile newTile : Rectangle) :
    Manager Unit :=
  Prog.forEach (fun window => do
    let s ← Prog.state
    Prog.onlyIf (s.Live window) do
      let info ← infoFor window
      Prog.onlyIf (s.lock info.parent = none) do
        let rect := retiled oldTile newTile (s.rect window)
        modifyWindow data fuel window
          { topLeft := some rect.topLeft, size := some rect.size }) windows

/-- `update_tiles`; the result is what it files under the userdata. -/
def updateTiles (fuel : Nat) (tiles : MRUTileList) (displays : List Rectangle)
    (spinner : Option Application) : Manager (Application → TilingWindowManagerPolicyData) := do
  let data := assignTiles tiles displays data
  let s ← Prog.state
  Prog.onlyIf (¬(tiles.count < 1 ∨ displays.length < 1)) <|
    Prog.forEach (fun app => Prog.onlyIf (spinner ≠ some app.1) <|
      updateSurfaces data fuel app.2.windows (data app.1).oldTile (data app.1).tile)
        (s.appInfo.entries.map fun app => (app.1, app.2))
  pure data

section Trees

variable {data} {s t : Model} {root v w : Window} {fuel : Nat} {movement : Displacement}
  {post : Unit → Model → Prop} {error : Failure → Model → Prop} {short : Prop}

theorem ensures_placeAndSizeWith_kept {move : Window → Displacement → Manager Unit}
    {rect : Rectangle} (kept : rect.size = s.size root) :
    (placeAndSizeWith move root rect.topLeft rect.size).Ensures s post error short ↔
      (move root (rect.topLeft - s.topLeft root)).Ensures s post error short := by
  simp only [placeAndSizeWith, ensures_bind, ensures_state, ensures_onlyIf, kept, ne_eq,
    not_true_eq_false, not_false_eq_true, false_implies, true_and, true_implies]

/-- `move_tree` moves its root as it is told, and changes nothing but the places of the windows
below. -/
theorem ensures_moveTree (integrity : s.Integrity) (live : s.Live root) :
    (moveTree data fuel root movement).Ensures s
      (fun _ t => Moved root s t ∧ (∀ v, t.size v = s.size v) ∧
        (Rooted s.parentOf root → t.topLeft root = s.topLeft root + movement))
      (fun _ _ => False) (∃ v, climb s.parentOf fuel v = some root) := by
  induction fuel generalizing s root movement with
  | zero => exact ⟨root, rfl⟩
  | succ fuel ih =>
    rw [moveTree, ensures_ite]
    constructor
    · rintro rfl
      exact ⟨.refl, fun _ => rfl, fun _ => Point.ext (by simp) (by simp)⟩
    · intro moves
      apply ensures_moveRoot integrity live
      intro info s₁ here step
      obtain ⟨moved, sizes, placed, -, -⟩ := step
      let strict (v : Window) : Prop := ∃ n, climb s.parentOf (n + 1) v = some root
      refine Ensures.mono (ensures_forEach (fun t => Moved root s t ∧
        (∀ v, t.size v = s.size v) ∧ ∀ v, ¬strict v → t.surface? v = s₁.surface? v) _ _ ?_
        ⟨moved, sizes, fun _ _ => rfl⟩) ?_ (fun _ _ h => h) id
      rotate_left
      · intro _ t after
        rcases after with ⟨moved, sizes, outside⟩
        refine ⟨moved, sizes, fun rooted => ?_⟩
        have apart : ¬strict root := by
          rintro ⟨n, around⟩
          exact not_rooted_of_loop around rooted
        rw [← placed, topLeft, topLeft, outside root apart]
      · intro child member t after
        rcases after with ⟨moved, sizes, outside⟩
        have link := (integrity.mem_children here).mp member
        have childManaged := integrity.managed_child here member
        have childLive := moved.live_child integrity link
        obtain ⟨childInfo, there⟩ := managed_iff.mp childManaged
        rw [← moved.info?] at there
        rw [ensures_bind, ensures_infoFor_here there, ensures_bind, ensures_state,
          ensures_placeAndSizeWith_kept rfl]
        refine (ih (moved.integrity integrity) childLive).mono ?_ (fun _ _ h => h) ?_
        · intro _ u after
          rcases after with ⟨moved', sizes', -⟩
          refine ⟨moved.trans (moved'.below ?_), fun v => (sizes' v).trans (sizes v),
            fun v apart => ?_⟩
          · rw [moved.parentOf]
            exact .link link .refl
          · rw [← outside v apart]
            apply moved'.outside v
            intro below
            rcases below with ⟨n, above⟩
            refine apart ⟨n, ?_⟩
            rw [moved.parentOf] at above
            rw [climb_add, above]
            simp [climb, link]
        · intro deep
          rcases deep with ⟨v, reached⟩
          rw [moved.parentOf] at reached
          refine ⟨v, ?_⟩
          rw [climb_add, reached]
          simp [climb, link]

theorem ensures_placeAndSize (integrity : s.Integrity) (live : s.Live w) (rect : Rectangle) :
    (placeAndSize data fuel w rect.topLeft rect.size).Ensures s
      (fun _ t => Moved w s t ∧ (∀ v, v ≠ w → t.size v = s.size v) ∧ t.size w = rect.size ∧
        (Rooted s.parentOf w → t.rect w = rect))
      (fun _ _ => False) (∃ v, climb s.parentOf fuel v = some w) := by
  apply ensures_resize live
  intro t resized
  obtain ⟨moved, sized, others, -, -⟩ := resized
  rw [ensures_bind, ensures_state]
  refine (ensures_moveTree (moved.integrity integrity) (moved.live.mpr live)).mono ?_
    (fun _ _ h => h) ?_
  · intro _ u after
    rcases after with ⟨moved', sizes, placed⟩
    refine ⟨moved.trans moved', fun v ne => (sizes v).trans (others v ne),
      (sizes w).trans sized, fun rooted => ?_⟩
    rw [moved.parentOf] at placed
    rw [Model.rect, placed rooted, sizes, sized, Point.add_sub_self]
  · rw [moved.parentOf]
    exact id

end Trees

end Tiling

end Miral
