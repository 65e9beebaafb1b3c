import Miral.TilingPolicy
import Miral.Reachability

/-! Where `TilingWindowManagerPolicy` puts a new window: the first one of an application fills
its tile, each later one is moved 15 right and down for every window without a parent, and is
then clipped to what is left of the tile. -/
namespace Miral

open Program Prog Model

namespace Tiling

variable (data : Application → TilingWindowManagerPolicyData)

/-- `transform_set_state`. -/
def transformSetState : WindowState → WindowState
  | .hidden | .minimized => .hidden
  | _ => .restored

/-- `clip_to_tile`. -/
def clipToTile (parameters : WindowSpecification) (tile : Rectangle) :
    Except Failure WindowSpecification := do
  let displacement := (← Failure.valueOf parameters.topLeft) - tile.topLeft
  let size ← Failure.valueOf parameters.size
  let width := min (tile.size.width - displacement.dx) size.width
  let height := min (tile.size.height - displacement.dy) size.height
  pure { parameters with size := some ⟨width, height⟩ }

/-- The `count_if` over the windows of an application. -/
def topLevelWindows : List Window → Manager Nat
  | [] => pure 0
  | window :: rest => do
    let info ← infoFor window
    let s ← Prog.state
    let below ← topLevelWindows rest
    pure (if s.lock info.parent = none then below + 1 else below)

/-- `place_new_window`, for the application numbered `app`. -/
def placeNewWindow (spinner : Option Application) (app : Application) (appInfo : ApplicationInfo)
    (requestParameters : WindowSpecification) : Manager WindowSpecification := do
  let parameters := { requestParameters with
    userdata := some app
    state := some ((requestParameters.state.map transformSetState).getD .restored) }
  if spinner ≠ some app then do
    let tile := (data app).tile
    let s ← Prog.state
    let parameters ←
      if s.lock parameters.parent.join = none then
        if appInfo.windows = [] then
          pure { parameters with topLeft := some tile.topLeft, size := some tile.size }
        else do
          let topLevel ← topLevelWindows appInfo.windows
          pure { parameters with
            topLeft := some (tile.topLeft + Displacement.mk (15 * topLevel) (15 * topLevel)) }
      else pure parameters
    Prog.ofExcept (clipToTile parameters tile)
  else pure parameters

section Placement

variable {s : Model} {app : Application} {appInfo : ApplicationInfo}
  {spinner : Option Application} {requestParameters parameters placed : WindowSpecification}
  {tile : Rectangle} {size : Size}

def topLevelOf (s : Model) (windows : List Window) : List Window :=
  windows.filter fun window => s.lock (s.parentOf window) = none

theorem ensures_topLevelWindows {windows : List Window} {post : Nat → Model → Prop}
    {error : Failure → Model → Prop} {short : Prop} (known : ∀ w ∈ windows, s.Managed w) :
    (topLevelWindows windows).Ensures s post error short ↔
      post (topLevelOf s windows).length s := by
  induction windows generalizing post with
  | nil => rfl
  | cons window rest ih =>
    obtain ⟨info, here⟩ := managed_iff.mp (known window List.mem_cons_self)
    have below : ∀ w ∈ rest, s.Managed w := fun w member => known w (List.mem_cons_of_mem _ member)
    simp only [topLevelWindows, ensures_bind, ensures_infoFor_here here, ensures_state, ih below,
      ensures_pure, topLevelOf, List.filter_cons, parentOf_eq here, decide_eq_true_eq]
    split <;> rfl

/-- The rectangle a window without a parent is placed at: `topLevel` steps into the tile. -/
def cascadedIn (tile : Rectangle) (size : Size) (topLevel : Nat) : Rectangle :=
  ⟨tile.topLeft + Displacement.mk (15 * topLevel) (15 * topLevel),
    ⟨min (tile.size.width - 15 * topLevel) size.width,
      min (tile.size.height - 15 * topLevel) size.height⟩⟩

theorem clipToTile_eq {topLeft : Point} (there : parameters.topLeft = some topLeft)
    (sized : parameters.size = some size) :
    clipToTile parameters tile = .ok { parameters with
      size := some ⟨min (tile.size.width - (topLeft - tile.topLeft).dx) size.width,
        min (tile.size.height - (topLeft - tile.topLeft).dy) size.height⟩ } := by
  rw [clipToTile, there, sized]
  rfl

theorem ensures_clipToTile {topLevel : Nat} {post : WindowSpecification → Model → Prop}
    {error : Failure → Model → Prop} {short : Prop} (there : parameters.topLeft =
      some (tile.topLeft + Displacement.mk (15 * topLevel) (15 * topLevel)))
    (sized : parameters.size = some size)
    (clipped : post { parameters with size := some (cascadedIn tile size topLevel).size } s) :
    (Prog.ofExcept (clipToTile parameters tile)).Ensures s post error short := by
  rw [clipToTile_eq there sized, Point.add_sub_cancel]
  exact clipped

/-- What the policy answers for a window without a parent. -/
theorem ensures_placeNewWindow (known : ∀ w ∈ appInfo.windows, s.Managed w)
    (other : spinner ≠ some app) (sized : requestParameters.size = some size)
    (parentless : s.lock requestParameters.parent.join = none) :
    (placeNewWindow data spinner app appInfo requestParameters).Ensures s
      (fun placed t => t = s ∧ ∃ rect, rect = cascadedIn (data app).tile
          (if appInfo.windows = [] then (data app).tile.size else size)
          (topLevelOf s appInfo.windows).length ∧
        placed.topLeft = some rect.topLeft ∧ placed.size = some rect.size)
      (fun _ _ => False) False := by
  rw [placeNewWindow, if_pos other, ensures_bind, ensures_state, if_pos parentless, ensures_ite]
  constructor
  · intro first
    have corner : (data app).tile.topLeft = (data app).tile.topLeft +
        Displacement.mk (15 * ((0 : Nat) : Int)) (15 * ((0 : Nat) : Int)) :=
      Point.ext (Int.add_zero _).symm (Int.add_zero _).symm
    rw [first, if_pos rfl, ensures_bind, ensures_pure]
    apply ensures_clipToTile (congrArg some corner) rfl
    exact ⟨rfl, _, rfl, congrArg some corner, rfl⟩
  · intro later
    rw [if_neg later, ensures_bind, ensures_topLevelWindows known, ensures_bind, ensures_pure]
    apply ensures_clipToTile
    · rfl
    · exact sized
    · exact ⟨rfl, _, rfl, rfl, rfl⟩

/-- The window is not empty and lies inside the tile. -/
def PlacedIn (tile : Rectangle) (placed : WindowSpecification) : Prop :=
  ∃ topLeft size, placed.topLeft = some topLeft ∧ placed.size = some size ∧ size.Positive ∧
    tile.contains ⟨topLeft, size⟩

theorem placedIn_iff {rect : Rectangle} (topLeft : placed.topLeft = some rect.topLeft)
    (sized : placed.size = some rect.size) :
    PlacedIn tile placed ↔ rect.size.Positive ∧ tile.contains rect := by
  constructor
  · intro inside
    obtain ⟨p, size, there, measured, positive, contained⟩ := inside
    obtain rfl : rect.topLeft = p := Option.some.inj (topLeft.symm.trans there)
    obtain rfl : rect.size = size := Option.some.inj (sized.symm.trans measured)
    exact ⟨positive, contained⟩
  · intro inside
    exact ⟨_, _, topLeft, sized, inside.1, inside.2⟩

theorem contains_cascadedIn (tile : Rectangle) (size : Size) (topLevel : Nat) :
    tile.contains (cascadedIn tile size topLevel) := by
  rw [Rectangle.contains_iff]
  simp only [Rectangle.left, Rectangle.right, Rectangle.top, Rectangle.bottom, cascadedIn,
    Point.add_x, Point.add_y]
  omega

theorem positive_cascadedIn {topLevel : Nat} (positive : size.Positive) :
    (cascadedIn tile size topLevel).size.Positive ↔
      15 * (topLevel : Int) < tile.size.width ∧ 15 * (topLevel : Int) < tile.size.height := by
  rcases positive with ⟨wide, tall⟩
  constructor
  · intro left
    have width := left.wide
    have height := left.tall
    simp only [cascadedIn] at width height
    omega
  · intro room
    constructor
    · simp only [cascadedIn]
      omega
    · simp only [cascadedIn]
      omega

variable (requestParameters) in
/-- A new window without a parent is placed inside its tile exactly where the cascade has not
yet left the tile. -/
theorem new_window_in_tile_iff (known : ∀ w ∈ appInfo.windows, s.Managed w)
    (other : spinner ≠ some app) (room : (data app).tile.size.Positive)
    (sized : requestParameters.size = some size) (positive : size.Positive)
    (parentless : s.lock requestParameters.parent.join = none) :
    ∃ placed, placeNewWindow data spinner app appInfo requestParameters s = .returned placed s ∧
      (PlacedIn (data app).tile placed ↔
        15 * ((topLevelOf s appInfo.windows).length : Int) < (data app).tile.size.width ∧
        15 * ((topLevelOf s appInfo.windows).length : Int) < (data app).tile.size.height) := by
  have filled : (if appInfo.windows = [] then (data app).tile.size else size).Positive := by
    split
    · exact room
    · exact positive
  obtain ⟨placed, t, run, rfl, rect, rfl, topLeft, measured⟩ :=
    (ensures_placeNewWindow data known other sized parentless).returns not_false
  refine ⟨placed, run, ?_⟩
  rw [placedIn_iff topLeft measured, ← positive_cascadedIn filled]
  exact and_iff_left (contains_cascadedIn _ _ _)

/-- The third window of an application that has the whole display. -/
theorem third_window_in_tile : ∃ appInfo placed, pairState.app? 1 = some appInfo ∧
    placeNewWindow (fun _ => ⟨⟨⟨0, 0⟩, ⟨640, 480⟩⟩, default⟩) none 1 appInfo
      { topLeft := some ⟨0, 0⟩, size := some ⟨900, 200⟩ } pairState = .returned placed pairState ∧
    PlacedIn ⟨⟨0, 0⟩, ⟨640, 480⟩⟩ placed := by
  have listed : pairState.app? 1 = some ⟨[⟨1, 1⟩, ⟨1, 2⟩]⟩ := by decide +kernel
  have known : ∀ w ∈ [⟨1, 1⟩, ⟨1, 2⟩], pairState.Managed w := by decide +kernel
  have top : (topLevelOf pairState [⟨1, 1⟩, ⟨1, 2⟩]).length = 2 := by decide +kernel
  obtain ⟨placed, run, inside⟩ := new_window_in_tile_iff
    (fun _ => ⟨⟨⟨0, 0⟩, ⟨640, 480⟩⟩, default⟩)
    { topLeft := some ⟨0, 0⟩, size := some ⟨900, 200⟩ } known (Option.some_ne_none 1).symm
    ⟨by decide, by decide⟩ rfl ⟨by decide, by decide⟩ rfl
  refine ⟨_, placed, listed, run, inside.mpr ?_⟩
  rw [top]
  decide

/-- With seventeen tiles on a display of 640x480 all but the first are 30 high, which is as far
as two windows move the third. -/
theorem new_window_in_tile_fails : ¬∀ (data : Application → TilingWindowManagerPolicyData)
    (s : Model) app appInfo spinner requestParameters size, s.Integrity →
      s.app? app = some appInfo → spinner ≠ some app → (data app).tile.size.Positive →
      requestParameters.size = some size → size.Positive →
      s.lock requestParameters.parent.join = none →
      ∃ placed, placeNewWindow data spinner app appInfo requestParameters s =
        .returned placed s ∧ PlacedIn (data app).tile placed := by
  intro claim
  have integrity : pairState.Integrity := (reachable_pairState.mono fun _ _ h => h.1).integrity
  have listed : pairState.app? 1 = some ⟨[⟨1, 1⟩, ⟨1, 2⟩]⟩ := by decide +kernel
  obtain ⟨placed, run, topLeft, size, -, sized, positive, -⟩ := claim
    (fun _ => ⟨tileAt ⟨640, 480⟩ 17 1, default⟩) pairState 1 _ none
    { topLeft := some ⟨0, 0⟩, size := some ⟨100, 80⟩ } ⟨100, 80⟩ integrity listed
    (Option.some_ne_none 1).symm ⟨by decide, by decide⟩ rfl ⟨by decide, by decide⟩ rfl
  have empty : (placeNewWindow (fun _ => ⟨tileAt ⟨640, 480⟩ 17 1, default⟩) none 1
      ⟨[⟨1, 1⟩, ⟨1, 2⟩]⟩ { topLeft := some ⟨0, 0⟩, size := some ⟨100, 80⟩ }
        pairState).value?.bind (·.size) = some ⟨100, 0⟩ := by decide +kernel
  rw [run, Outcome.value?, Option.bind_some, sized] at empty
  have tall := positive.tall
  rw [Option.some.inj empty] at tall
  exact absurd tall (by decide)

end Placement

end Tiling
end Miral
