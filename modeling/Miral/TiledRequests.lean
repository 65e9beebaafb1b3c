import Miral.TiledMovement
import Miral.RequestGeometry

/-! A client's request to a tiled window. `handle_modify_window` keeps the place and the size that
are asked for in the tile; what `modify_window` makes of constraints and of placement hints it does
not see. -/
namespace Miral

open Program Prog Forest Model

namespace Tiling

/-- Where the windows are once `w` has been given a rectangle. -/
def rectAfter (data : Application → TilingWindowManagerPolicyData) (s : Model) (depth : Nat)
    (w : Window) (rect : Rectangle) (v : Window) : Rectangle :=
  if v = w then rect
  else
    match level s.parentOf depth w v with
    | some n =>
      ⟨s.topLeft v + carried (tileOf data s) s.rect s.parentOf (rect.topLeft - s.topLeft w) n v,
        s.size v⟩
    | none => s.rect v

def StaysInside (data : Application → TilingWindowManagerPolicyData) (s : Model) (w : Window)
    (rect placed : Rectangle) : Prop :=
  (tileOf data s w).contains rect → (tileOf data s w).contains placed

/-- The request as `handle_modify_window` passes it on. -/
def tiledRequest (data : Application → TilingWindowManagerPolicyData) (s : Model) (w : Window)
    (info : WindowInfo) (modifications : SurfaceSpecification) : WindowSpecification :=
  { constrainSizeAndPlace (s.placeAndSizeForState (.ofSurfaceSpecification modifications) w info)
      (s.rect w) (tileFor data info) with outputId := none }

/-- Neither of the two ways leads out of the tile that `constrain_size_and_place` leaves open: the
constraints of a request without a size, and the placement relative to a parent. -/
structure StaysTiled (data : Application → TilingWindowManagerPolicyData) (s : Model) (w : Window)
    (info : WindowInfo) (request : WindowSpecification) : Prop where
  resized : s.Unhinted info request → request.size = none → request.constrains → ∀ pos size,
    (info.copyIfSet request).constrainResize (s.rect w) (request.topLeft.getD (s.topLeft w))
      (s.size w) = .ok (pos, size) → (tileFor data info).contains ⟨pos, size⟩
  placed : ¬s.Unhinted info request → Rooted (s.asked w info request).parentOf w ∧
    ∀ rect placed, s.requestedRect w (info.copyIfSet request) request = .ok rect →
      s.placementAsked (rectAfter data) w info request rect = .ok (some placed) →
      (tileFor data info).contains placed

variable {data : Application → TilingWindowManagerPolicyData} {s t u : Model}
  {root w v c : Window} {info tmp : WindowInfo} {fuel depth : Nat} {rect : Rectangle}
  {request : WindowSpecification}

section Geometry

/-- `place_and_size` takes the tree along, and keeps the window in its tile if that is where it is
told to be. -/
theorem ensures_placeAndSize_tiled (integrity : s.Integrity) (live : s.Live w) (rect : Rectangle) :
    (placeAndSize data fuel w rect.topLeft rect.size).Ensures s
      (fun _ t => Moved w s t ∧
        (Rooted s.parentOf w → ∀ depth, (∀ v n, climb s.parentOf n v = some w → n ≤ depth) →
          t.rect = rectAfter data s depth w rect) ∧
        StaysInside data s w rect (t.rect w)) (fun _ _ => False) True := by
  apply ensures_resize live
  intro t resized
  obtain ⟨moved, sized, others, corners, -⟩ := resized
  have kept := moved.integrity integrity
  have live' : t.Live w := moved.live.mpr live
  have tiles : tileOf data t = tileOf data s := Moved.tileOf moved
  have rects (v : Window) (ne : v ≠ w) : t.rect v = s.rect v := by
    rw [Model.rect, corners, others v ne]
    rfl
  rw [ensures_bind, ensures_state]
  have base : (moveTree data fuel w (rect.topLeft - t.topLeft w)).Ensures t _ _ _ :=
    ensures_moveTree kept live'
  have followed (rooted : Rooted t.parentOf w) :
      (moveTree data fuel w (rect.topLeft - t.topLeft w)).Ensures t (fun _ u =>
        Followed data w (rect.topLeft - t.topLeft w) t u) (fun _ _ => False) True :=
    ensures_moveTree_followed kept rooted live'
  have inside (fits : (tileOf data t w).contains rect) :
      (moveTree data fuel w (rect.topLeft - t.topLeft w)).Ensures t (fun _ u =>
        (tileOf data t w).contains (u.rect w)) (fun _ _ => False) True := by
    refine ensures_moveTree_inside kept live' (fun ne => absurd rfl ne) fun _ => ?_
    rw [Point.add_sub_self, sized]
    exact fits
  refine ((base.under followed).under inside).mono ?_ (fun _ _ h => h) fun _ => trivial
  intro _ u after
  rcases after with ⟨⟨⟨moved', sizes, placed⟩, followed⟩, inside⟩
  rw [tiles] at inside
  refine ⟨moved.trans moved', fun rooted depth bound => funext fun v => ?_, inside⟩
  have grounded : Rooted t.parentOf w := by rwa [moved.parentOf]
  have carry := followed grounded
  unfold rectAfter
  by_cases eq : v = w
  · rw [if_pos eq, eq, Model.rect, placed grounded, sizes, sized, Point.add_sub_self]
  · rw [if_neg eq]
    have size : u.size v = s.size v := (sizes v).trans (others v eq)
    split
    · rename_i n found
      have reached := climb_of_level found
      rw [Model.rect, carry n v (by rwa [moved.parentOf]), tiles, moved.parentOf, corners, size,
        corners, carried_congr rooted (fun v ne _ => rects v ne) reached]
    · rename_i missing
      have apart : ¬Above s.parentOf w v := not_above_of_level (bound v) missing
      rw [moved'.rect_outside (by rwa [moved.parentOf]), rects v eq]

theorem rectAfter_self : rectAfter data s depth w (s.rect w) = s.rect := by
  have still : (s.rect w).topLeft - s.topLeft w = Displacement.mk 0 0 := Point.sub_eq_zero.mpr rfl
  funext v
  unfold rectAfter
  split
  · rename_i eq
    rw [eq]
  · split
    · rw [still, carried_still, Model.rect]
      exact congrArg (Rectangle.mk · _) (Point.ext (by simp) (by simp))
    · rfl

theorem rectAfter_parent {p : Window} (rooted : Rooted s.parentOf w) (link : s.parentOf w = some p) :
    rectAfter data s depth w rect p = s.rect p := by
  have apart := rooted.not_above_parent link
  unfold rectAfter
  split
  · rename_i eq
    exact absurd (eq ▸ .refl) apart
  · split
    · rename_i n found
      exact absurd ⟨n, climb_of_level found⟩ apart
    · rfl

theorem tileOf_congr (same : ∀ v, (t.info? v).map (·.userdata) = (s.info? v).map (·.userdata)) :
    tileOf data t = tileOf data s := by
  funext v
  have userdata := same v
  unfold tileOf tileFor
  cases there : t.info? v <;> cases here : s.info? v <;> simp_all

theorem places_tiled : Places (placeAndSize data fuel) (rectAfter data) (StaysInside data) where
  ensures _ _ rect integrity live := ensures_placeAndSize_tiled integrity live rect
  self _ _ _ _ := if_pos rfl
  parent _ _ _ _ _ := rectAfter_parent
  idle _ _ _ := rectAfter_self
  stays _ _ := id
  congr s t rects links userdata := by
    have tiles : tileOf data t = tileOf data s := tileOf_congr userdata
    have corner (v : Window) : t.topLeft v = s.topLeft v :=
      congrArg Rectangle.topLeft (congrFun rects v)
    have size (v : Window) : t.size v = s.size v := congrArg Rectangle.size (congrFun rects v)
    constructor
    · funext depth w rect v
      simp only [rectAfter, tiles, rects, links, corner, size]
    · funext w rect placed
      simp only [StaysInside, tiles]

end Geometry

section Outcome

/-- The geometry phase leaves the tile only by way of the constraints. -/
theorem requestedRect_inside {tile : Rectangle}
    (fits : tile.contains ⟨request.topLeft.getD (s.topLeft w), request.size.getD (s.size w)⟩)
    (resized : request.size = none → request.constrains → ∀ pos size, info.constrainResize
      (s.rect w) (request.topLeft.getD (s.topLeft w)) (s.size w) = .ok (pos, size) →
      tile.contains ⟨pos, size⟩)
    (asked : s.requestedRect w info request = .ok rect) : tile.contains rect := by
  unfold requestedRect at asked
  dsimp only at asked
  cases sized : request.size with
  | some size =>
    simp only [sized, Except.ok.injEq] at asked
    rw [sized] at fits
    exact asked ▸ fits
  | none =>
    simp only [sized] at asked
    split at asked
    · rename_i constrains
      cases found : info.constrainResize (s.rect w) (request.topLeft.getD (s.topLeft w))
          (s.size w) with
      | error failure =>
        rw [found] at asked
        contradiction
      | ok result =>
        rw [found] at asked
        obtain rfl := Except.ok.inj asked
        exact resized sized constrains _ _ found
    · rw [sized] at fits
      exact Except.ok.inj asked ▸ fits

/-- A request to a tiled window keeps it in its tile as far as the constraints and the placement
hints do. -/
theorem stays_tiled_iff (client : request.userdata = none)
    (fits : (tileFor data info).contains
      ⟨request.topLeft.getD (s.topLeft w), request.size.getD (s.size w)⟩)
    (answered : Answered (rectAfter data) (StaysInside data) s w info request rect t) :
    (StaysTiled data s w info request → (tileFor data info).contains (t.rect w)) ∧
      (Rooted (s.asked w info request).parentOf w → (tileFor data info).contains (t.rect w) →
        StaysTiled data s w info request) := by
  have tile : tileOf data (s.asked w info request) w = tileFor data info := by
    have record : (s.asked w info request).info? w = some (info.requestedBy request) := by
      rw [asked, info?_setInfo, if_pos rfl]
    rw [tileOf_eq record]
    simp [tileFor, WindowInfo.requestedBy, WindowInfo.copyIfSet, client]
  by_cases idle : s.Unhinted info request
  · have nothing : s.placementAsked (rectAfter data) w info request rect = .ok none :=
      placementAsked_unhinted idle
    constructor
    · intro stays
      have kept := answered.unhinted idle
      rw [StaysInside, tile] at kept
      exact kept (requestedRect_inside fits (stays.resized idle) answered.sized)
    · intro rooted inside
      obtain ⟨placed, found, there⟩ := answered.placed rooted
      obtain rfl := Except.ok.inj (nothing.symm.trans found)
      rw [there] at inside
      refine ⟨fun _ sized constrains pos size ok => ?_, fun hinted => absurd idle hinted⟩
      have sized' := answered.sized
      simp only [requestedRect, sized, constrains, if_true, ok] at sized'
      exact Except.ok.inj sized' ▸ inside
  · constructor
    · intro stays
      obtain ⟨rooted, inside⟩ := stays.placed idle
      obtain ⟨placed, found, there⟩ := answered.placed rooted
      obtain ⟨placement, rfl⟩ := placementAsked_hinted idle found
      rw [there]
      exact inside rect placement answered.sized found
    · intro rooted inside
      obtain ⟨placed, found, there⟩ := answered.placed rooted
      rw [there] at inside
      refine ⟨fun unhinted => absurd unhinted idle, fun _ => ⟨rooted, fun rect' placed' ok ok' => ?_⟩⟩
      obtain rfl := Except.ok.inj (answered.sized.symm.trans ok)
      obtain rfl := Except.ok.inj (found.symm.trans ok')
      exact inside

end Outcome

section Request

variable {modifications : SurfaceSpecification}

/-- The policy and the placement for a state leave everything but the geometry as it is asked. -/
theorem tiledRequest_eq (data : Application → TilingWindowManagerPolicyData) (s : Model)
    (w : Window) (info : WindowInfo) (modifications : SurfaceSpecification) :
    ∃ topLeft size, tiledRequest data s w info modifications =
      { WindowSpecification.ofSurfaceSpecification modifications with
        topLeft := topLeft, size := size, outputId := none } := by
  obtain ⟨topLeft, size, placed⟩ :=
    s.placeAndSizeForState_eq (.ofSurfaceSpecification modifications) w info
  unfold tiledRequest
  rw [placed]
  exact ⟨_, _, rfl⟩

theorem ofSurfaceSpecification_userdata :
    (WindowSpecification.ofSurfaceSpecification modifications).userdata = none := by
  unfold WindowSpecification.ofSurfaceSpecification
  dsimp only
  split <;> rfl

end Request

end Tiling

open Tiling

variable {s t : Model} {w : Window} {info : WindowInfo} {fuel : Nat}
  {modifications : SurfaceSpecification}

/-- A client's request keeps a tiled window in its tile, unless it has the constraints size the
window, or places the window relative to its parent, and these lead out of the tile. -/
theorem tiled_requests_stay (data : Application → TilingWindowManagerPolicyData)
    (integrity : s.Integrity) (here : s.info? w = some info)
    (home : (tileFor data info).contains (s.rect w))
    (run : Tiling.modifySurface data fuel w modifications s = .returned () t) :
    (StaysTiled data s w info (tiledRequest data s w info modifications) →
      (tileFor data info).contains (t.rect w)) ∧
    (Rooted (s.asked w info (tiledRequest data s w info modifications)).parentOf w →
      (tileFor data info).contains (t.rect w) →
      StaysTiled data s w info (tiledRequest data s w info modifications)) := by
  have ensures : (Tiling.modifySurface data fuel w modifications).Ensures s (fun _ t =>
      (StaysTiled data s w info (tiledRequest data s w info modifications) →
        (tileFor data info).contains (t.rect w)) ∧
      (Rooted (s.asked w info (tiledRequest data s w info modifications)).parentOf w →
        (tileFor data info).contains (t.rect w) →
        StaysTiled data s w info (tiledRequest data s w info modifications)))
      (fun _ _ => True) True := by
    rw [Tiling.modifySurface, ensures_bind, ensures_infoFor_here here, ensures_bind, ensures_state,
      ensures_bind, ensures_ofExcept]
    refine ⟨fun _ valid => ?_, fun _ _ => trivial⟩
    rw [handleModifyWindow, ensures_bind, ensures_infoFor_here here, ensures_bind, ensures_state]
    obtain ⟨topLeft, size, eq⟩ := tiledRequest_eq data s w info modifications
    have client : (tiledRequest data s w info modifications).userdata = none :=
      (congrArg WindowSpecification.userdata eq).trans ofSurfaceSpecification_userdata
    refine (places_tiled.ensures_modifyWindow integrity here ?_).imp ?_
    · intro forbidden
      have type : (tiledRequest data s w info modifications).type =
          (WindowSpecification.ofSurfaceSpecification modifications).type := by rw [eq]
      have parent : (tiledRequest data s w info modifications).parent =
          (WindowSpecification.ofSurfaceSpecification modifications).parent := by rw [eq]
      have alone := orphan_of_valid valid
      rw [← type, ← parent] at alone
      exact alone forbidden
    · intro _ t outcome
      rcases outcome with ⟨rect, answered⟩
      exact stays_tiled_iff client (constrainSizeAndPlace_inside home) answered
  exact ensures.returned run

/-- One tile for everybody, which is the whole of the display. -/
def wholeTile : Application → TilingWindowManagerPolicyData :=
  fun _ => ⟨⟨⟨0, 0⟩, ⟨640, 480⟩⟩, default⟩

theorem home_singleState : (tileOf wholeTile singleState ⟨1, 1⟩).contains
    (singleState.rect ⟨1, 1⟩) := by decide +kernel

/-- More is asked for than the tile is wide. -/
theorem tiled_requests_stay_clipped : ∃ t,
    Tiling.modifySurface wholeTile 5 ⟨1, 1⟩ { width := some 900, height := some 200 }
      singleState = .returned () t ∧
      (⟨⟨0, 0⟩, ⟨640, 480⟩⟩ : Rectangle).contains (t.rect ⟨1, 1⟩) := by
  have integrity : singleState.Integrity := (reachable_singleState.mono fun _ _ h => h.1).integrity
  obtain ⟨info, here, -⟩ := restored_singleState
  have home := home_singleState
  rw [tileOf_eq here] at home
  have returns : (Tiling.modifySurface wholeTile 5 ⟨1, 1⟩ { width := some 900, height := some 200 }
      singleState).returned?.isSome := by decide +kernel
  obtain ⟨t, returned⟩ := Option.isSome_iff_exists.mp returns
  obtain ⟨_, run⟩ := Outcome.returned?_eq_some.mp returned
  refine ⟨t, run, (tiled_requests_stay wholeTile integrity here home run).1 ?_⟩
  constructor
  · intro _ unsized
    simp [tiledRequest, placeAndSizeForState, WindowSpecification.ofSurfaceSpecification,
      constrainSizeAndPlace, WindowSpecification.both] at unsized
  · intro hinted
    exact absurd (.inl rfl) hinted

/-- A least width that no tile has. -/
theorem tiled_requests_stay_fails : ¬∀ (data : Application → TilingWindowManagerPolicyData)
    (s t : Model) w info fuel modifications, s.Integrity → s.info? w = some info →
      (tileFor data info).size.Positive → (tileFor data info).contains (s.rect w) →
      s.validateModificationRequest (.ofSurfaceSpecification modifications) info = .ok () →
      Tiling.modifySurface data fuel w modifications s = .returned () t →
      (tileFor data info).contains (t.rect w) := by
  intro claim
  have integrity : singleState.Integrity := (reachable_singleState.mono fun _ _ h => h.1).integrity
  obtain ⟨info, here, -⟩ := restored_singleState
  have home := home_singleState
  rw [tileOf_eq here] at home
  have tile : tileFor wholeTile info = ⟨⟨0, 0⟩, ⟨640, 480⟩⟩ := rfl
  have grown : (Tiling.modifySurface wholeTile 5 ⟨1, 1⟩ { minWidth := some 1000 }
      singleState).returned?.map (·.rect ⟨1, 1⟩) = some ⟨⟨270, 134⟩, ⟨1000, 80⟩⟩ := by
    decide +kernel
  obtain ⟨t, returned, rect⟩ := Option.map_eq_some_iff.mp grown
  obtain ⟨_, run⟩ := Outcome.returned?_eq_some.mp returned
  have accepted : ((singleState.info? ⟨1, 1⟩).map fun info => (singleState.validateModificationRequest
      (.ofSurfaceSpecification { minWidth := some 1000 }) info).toOption) = some (some ()) := by
    decide +kernel
  rw [here] at accepted
  have inside := claim wholeTile singleState t ⟨1, 1⟩ info 5 { minWidth := some 1000 } integrity
    here (by rw [tile]; exact ⟨by decide, by decide⟩) home ?_ run
  · rw [rect, tile] at inside
    exact absurd inside (by decide)
  · cases valid : singleState.validateModificationRequest
        (.ofSurfaceSpecification { minWidth := some 1000 }) info with
    | ok _ => rfl
    | error failure => simp [valid, Except.toOption] at accepted

end Miral
