import Miral.Applicability
import Miral.PlacementChoice
import Miral.Reachability

/-! Where a child goes when it is created next to a part of its parent, and where the same request
puts it later. -/
namespace Miral

open Program Prog Model

/-- Where a preference for an edge starts: beside the aux rect, or below it. -/
def EdgeAttachment.gravity : EdgeAttachment → PlacementGravity
  | .vertical | .any => .northeast
  | .horizontal => .southwest

def EdgeAttachment.hints : EdgeAttachment → PlacementHints
  | .vertical => .onlyFlipX
  | .horizontal => .onlyFlipY
  | .any => .flipAny

/-- For an existing window, `any` tries the antipode too. -/
def EdgeAttachment.laterHints (attachment : EdgeAttachment) : PlacementHints :=
  { attachment.hints with antipodes := attachment = .any }

/-- What is asked of an existing window to attach it like a new one. -/
def SurfaceCreationParameters.attachment (params : SurfaceCreationParameters) :
    SurfaceSpecification where
  auxRect := params.auxRect
  edgeAttachment := params.edgeAttachment
  auxRectPlacementOffsetX := params.auxRectPlacementOffsetX
  auxRectPlacementOffsetY := params.auxRectPlacementOffsetY

/-- The placement that is searched for at the edge of `auxRect`. -/
def SurfaceCreationParameters.beside (params : SurfaceCreationParameters) (auxRect : Rectangle)
    (hints : PlacementHints) (parent display : Rectangle) : PlacementRequest where
  parent := parent
  auxRect := ⟨auxRect.topLeft + Displacement.mk parent.topLeft.x parent.topLeft.y, auxRect.size⟩
  display := display
  hints := hints
  winGravity := .northwest
  offset := (WindowSpecification.both Displacement.mk params.auxRectPlacementOffsetX
    params.auxRectPlacementOffsetY).getD ⟨0, 0⟩

/-- The size of a new window, which a requested output decides on. -/
def Model.outputSize (s : Model) (params : SurfaceCreationParameters) : Size :=
  if params.outputId = 0 then params.size
  else ((s.displayLayout.placeInOutput params.outputId ⟨params.topLeft, params.size⟩).getD
    ⟨params.topLeft, params.size⟩).size

section Created

variable {params : SurfaceCreationParameters} {auxRect : Rectangle} {attachment : EdgeAttachment}
  {parent display : Rectangle} {s : Model} {p : Window}

theorem places_created (aux : params.auxRect = some auxRect)
    (asks : params.edgeAttachment = some attachment) (unhinted : params.placementHints = none)
    {parameters : WindowSpecification}
    (same : parameters = { WindowSpecification.ofCreationParameters params with
      topLeft := parameters.topLeft, size := parameters.size, state := parameters.state
      type := parameters.type }) :
    parameters.Places (params.beside auxRect attachment.hints parent display)
      attachment.gravity := by
  rw [same, WindowSpecification.ofCreationParameters, asks, unhinted]
  cases attachment <;> exact ⟨rfl, rfl, rfl, rfl, ⟨auxRect, aux, rfl⟩, nofun, nofun⟩

theorem places_attachment (aux : params.auxRect = some auxRect)
    (asks : params.edgeAttachment = some attachment) :
    (WindowSpecification.ofSurfaceSpecification params.attachment).Places
      (params.beside auxRect attachment.laterHints parent display) attachment.gravity := by
  unfold WindowSpecification.ofSurfaceSpecification SurfaceCreationParameters.attachment
  rw [asks]
  cases attachment <;> exact ⟨rfl, rfl, rfl, rfl, ⟨auxRect, aux, rfl⟩, nofun, nofun⟩

theorem placeOnOutput_child (s : Model) (app : ApplicationInfo) {parameters : WindowSpecification}
    (size : parameters.size = some params.size) (topLeft : parameters.topLeft = some params.topLeft)
    (output : parameters.outputId = some params.outputId) :
    ∃ placed positioned, s.placeOnOutput app parameters true = .ok (placed, positioned) ∧
      placed.size = some (s.outputSize params) ∧ placed = { parameters with
        topLeft := placed.topLeft, size := placed.size, state := placed.state } := by
  have asked : parameters.outputId.getD 0 = params.outputId := by rw [output, Option.getD_some]
  unfold placeOnOutput outputSize
  rw [asked]
  by_cases unset : params.outputId = 0
  · exact ⟨parameters, false, by simp [unset, pure, Except.pure], by simp [unset, size], rfl⟩
  · simp only [unset, ne_eq, not_false_eq_true, if_true, if_false, size, topLeft, Failure.valueOf]
    exact ⟨_, _, rfl, rfl, rfl⟩

/-- A new child is placed by the search that its edge starts. -/
theorem placeNewSurface_attached (app : ApplicationInfo) (locked : s.lock params.parent = some p)
    (managed : s.Managed p) (aux : params.auxRect = some auxRect)
    (asks : params.edgeAttachment = some attachment) (unhinted : params.placementHints = none)
    {rect : Rectangle}
    (found : (params.beside auxRect attachment.hints (s.rect p) s.activeDisplay).search
      (s.outputSize params) attachment.gravity = .ok rect) :
    ∃ spec, s.placeNewSurface app (.ofCreationParameters params) = .ok spec ∧
      spec.topLeft = some rect.topLeft ∧ spec.size = some rect.size := by
  obtain ⟨size, topLeft, output, parented, auxed⟩ :=
    WindowSpecification.ofCreationParameters_fields params
  obtain ⟨placed, positioned, onOutput, sized, same⟩ :=
    placeOnOutput_child s app (show ({ WindowSpecification.ofCreationParameters params with
        type := some ((WindowSpecification.ofCreationParameters params).type.getD .normal)
        state := some ((WindowSpecification.ofCreationParameters params).state.getD .restored) } :
      WindowSpecification).size = _ from size) topLeft output
  have places : placed.Places (params.beside auxRect attachment.hints (s.rect p) s.activeDisplay)
      attachment.gravity := by
    apply places_created aux asks unhinted
    have types : placed.type = _ := congrArg WindowSpecification.type same
    rw [types]
    exact same
  have placedAux : placed.auxRect.isSome := by
    obtain ⟨auxRect, eq, -⟩ := places.auxRect
    simp [eq]
  have search := places.placeRelative (s.outputSize params)
  rw [sized, Option.getD_some, found] at search
  refine ⟨{ placed with topLeft := some rect.topLeft, size := some rect.size }, ?_, rfl, rfl⟩
  have value : Failure.valueOf (WindowSpecification.ofCreationParameters params).size =
      .ok params.size := by rw [size, Failure.valueOf]
  have lock : s.lock ((WindowSpecification.ofCreationParameters params).parent.getD none) = some p := by
    rw [parented, Option.getD_some, locked]
  unfold placeNewSurface
  dsimp only
  rw [value, lock, Option.isSome_some]
  simp only [bind, Except.bind, onOutput]
  have attached : placed.auxRect.isSome ∧ placed.placementHints.isSome :=
    ⟨placedAux, by rw [places.hints, Option.isSome_some]⟩
  have start : placeRelative s.activeDisplay (s.rect p) placed (s.outputSize params) = .ok rect :=
    search
  rw [placeOnParent, if_neg (not_not.mpr managed), sized]
  simp only [Failure.valueOf, bind, Except.bind, if_pos attached, start]
  rfl

end Created

section Modified

variable {s : Model} {w p : Window} {info : WindowInfo} {modifications : WindowSpecification}
  {fuel : Nat} {rect : Rectangle}

/-- Nothing but an attachment is asked for. -/
structure WindowSpecification.OnlyPlaces (modifications : WindowSpecification) : Prop where
  topLeft : modifications.topLeft = none
  size : modifications.size = none
  type : modifications.type = none
  state : modifications.state = none
  parent : modifications.parent = none
  constrains : modifications.constrains = false
  confinePointer : modifications.confinePointer = none
  hints : modifications.placementHints.isSome

theorem Model.Undisturbed.activeDisplay {t : Model} (same : Undisturbed s t)
    (rects : ∀ v, t.rect v = s.rect v) : t.activeDisplay = s.activeDisplay := by
  have focus : t.focus = s.focus := by rw [same.frame]
  have cursor : t.cursor = s.cursor := by rw [same.frame]
  unfold Model.activeDisplay
  rw [focus, cursor, same.displays, same.lock]
  simp only [rects]

/-- A request that only attaches a child moves it to where the search puts it. -/
theorem ensures_modifyWindow_attached (integrity : s.Integrity) (here : s.info? w = some info)
    (child : s.lock info.parent = some p) (only : modifications.OnlyPlaces)
    (placed : placeRelative s.activeDisplay (s.rect p) modifications (s.size w) = .ok rect) :
    (modifyWindow fuel w modifications).Ensures s (fun _ t => t.rect w = rect) (fun _ _ => False)
      (s.Short fuel) := by
  have requested : Requested s modifications info (info.requestedBy modifications) :=
    requested_of_type (by simp [only.parent]) (by simp [only.type])
  have parent : (info.requestedBy modifications).parent = info.parent := by
    rw [WindowInfo.requestedBy, only.parent]
    rfl
  have still (tmp : WindowInfo) : s.requestedRect w tmp modifications = .ok (s.rect w) := by
    simp [requestedRect, only.topLeft, only.size, only.constrains, Model.rect]
  have placement (t : Model) (same : Undisturbed s t) (rects : ∀ v, t.rect v = s.rect v) :
      t.placementRect w (info.requestedBy modifications) modifications = .ok (some rect) := by
    have size : t.size w = s.size w := congrArg Rectangle.size (rects w)
    rw [placementRect, if_pos only.hints, parent, same.lock, child]
    dsimp only
    rw [same.activeDisplay rects, rects p, size, placed]
    rfl
  apply ensures_modifyWindow integrity here
  · exact fun _ refused => refused _ requested
  · intro tmp t requested' prepared
    obtain rfl := requested.det requested'
    refine Short.congr fun v => prepared.parents_kept ?_
    rw [parent, parentOf_eq here]
  · intro tmp t failure _ _ unsized
    rw [still] at unsized
    contradiction
  · intro tmp t failure rect' requested' prepared sized _ rects unplaced
    obtain rfl := requested.det requested'
    obtain rfl := Except.ok.inj ((still _).symm.trans sized)
    rw [placement t prepared.undisturbed (rects rfl)] at unplaced
    contradiction
  · rintro tmp t rect' requested' prepared sized - ⟨u, asked, undisturbed, ok, rects, there⟩
    obtain rfl := requested.det requested'
    obtain rfl := Except.ok.inj ((still _).symm.trans sized)
    rw [placement u undisturbed (rects rfl)] at ok
    obtain rfl := Except.ok.inj ok
    rw [only.state, only.confinePointer]
    exact there rect rfl

end Modified

/-- The preference names an edge; or the child fits beside the aux rect in some mirror; or it does
not fit from the opposite corner either. -/
def SurfaceCreationParameters.SameEdge (params : SurfaceCreationParameters) (auxRect : Rectangle)
    (parent display : Rectangle) (size : Size) : Prop :=
  let request := params.beside auxRect .flipAny parent display
  params.edgeAttachment = some .any →
    (∃ flip ∈ PlacementHints.flipAny.flips,
      display.contains (request.mirrored size .northeast flip)) ∨
    ∀ flip ∈ PlacementHints.flipAny.flips,
      ¬display.contains (request.mirrored size .southwest flip)

section Alike

variable {params : SurfaceCreationParameters} {auxRect : Rectangle} {attachment : EdgeAttachment}
  {parent display : Rectangle} {size : Size}

def EdgeAttachment.found (attachment : EdgeAttachment) (request : PlacementRequest) (size : Size) :
    Rectangle :=
  ((request.mirrors size attachment.gravity).find? request.display.contains).getD
    (request.mirrored size attachment.gravity (false, false))

theorem search_beside (hints : PlacementHints) (slides : ¬hints.slideX ∧ ¬hints.slideY)
    (resizes : ¬hints.resizeX ∧ ¬hints.resizeY) :
    (params.beside auxRect hints parent display).search size attachment.gravity =
      .ok (attachment.found (params.beside auxRect hints parent display) size) :=
  PlacementRequest.search_mirrored (by simp [SurfaceCreationParameters.beside])
    (by cases attachment <;> simp [EdgeAttachment.gravity]) slides resizes

/-- Only the antipode that `any` tries on an existing window makes a difference. -/
theorem found_eq_iff (asks : params.edgeAttachment = some attachment) :
    attachment.found (params.beside auxRect attachment.hints parent display) size =
        attachment.found (params.beside auxRect attachment.laterHints parent display) size ↔
      params.SameEdge auxRect parent display size := by
  unfold SurfaceCreationParameters.SameEdge
  rw [asks]
  cases attachment with
  | vertical => exact iff_of_true rfl nofun
  | horizontal => exact iff_of_true rfl nofun
  | any =>
    have first : (params.beside auxRect .flipAny parent display).mirrors size .northeast =
        PlacementHints.flipAny.flips.map
          ((params.beside auxRect .flipAny parent display).mirrored size .northeast) := rfl
    have second : (params.beside auxRect { PlacementHints.flipAny with antipodes := true } parent
        display).mirrors size .northeast = PlacementHints.flipAny.flips.map
          ((params.beside auxRect .flipAny parent display).mirrored size .northeast) ++
        PlacementHints.flipAny.flips.map
          ((params.beside auxRect .flipAny parent display).mirrored size .southwest) := rfl
    simp only [true_implies]
    change (List.find? display.contains
        ((params.beside auxRect .flipAny parent display).mirrors size .northeast)).getD
          ((params.beside auxRect .flipAny parent display).mirrored size .northeast (false, false)) =
      (List.find? display.contains ((params.beside auxRect
        { PlacementHints.flipAny with antipodes := true } parent display).mirrors size
          .northeast)).getD
          ((params.beside auxRect .flipAny parent display).mirrored size .northeast (false, false)) ↔ _
    rw [first, second, List.find?_append]
    generalize (params.beside auxRect .flipAny parent display).mirrored size = mirrored
    cases beside : List.find? display.contains
      (PlacementHints.flipAny.flips.map (mirrored .northeast)) with
    | some rect =>
      obtain ⟨flip, member, rfl⟩ := List.mem_map.mp (List.mem_of_find?_eq_some beside)
      exact iff_of_true rfl (.inl ⟨flip, member, List.find?_some beside⟩)
    | none =>
      have outside (flip : Bool × Bool) (member : flip ∈ PlacementHints.flipAny.flips) :
          ¬display.contains (mirrored .northeast flip) :=
        List.find?_eq_none.mp beside _ (List.mem_map.mpr ⟨flip, member, rfl⟩)
      have nowhere : ¬∃ flip ∈ PlacementHints.flipAny.flips,
          display.contains (mirrored .northeast flip) :=
        fun ⟨flip, member, inside⟩ => outside flip member inside
      rw [Option.none_or, Option.getD_none, or_iff_right nowhere]
      cases opposite : List.find? display.contains
        (PlacementHints.flipAny.flips.map (mirrored .southwest)) with
      | some rect =>
        obtain ⟨flip, member, rfl⟩ := List.mem_map.mp (List.mem_of_find?_eq_some opposite)
        have inside := List.find?_some opposite
        refine iff_of_false (fun eq => ?_) fun all => all flip member inside
        rw [Option.getD_some] at eq
        rw [← eq] at inside
        exact outside (false, false) PlacementHints.straight_mem_flips inside
      | none =>
        apply iff_of_true rfl
        intro flip member
        exact List.find?_eq_none.mp opposite _ (List.mem_map.mpr ⟨flip, member, rfl⟩)

end Alike

theorem onlyPlaces_attachment {params : SurfaceCreationParameters} {attachment : EdgeAttachment}
    (asks : params.edgeAttachment = some attachment) :
    (WindowSpecification.ofSurfaceSpecification params.attachment).OnlyPlaces := by
  unfold WindowSpecification.ofSurfaceSpecification SurfaceCreationParameters.attachment
  rw [asks]
  cases attachment <;> exact ⟨rfl, rfl, rfl, rfl, rfl, rfl, rfl, rfl⟩

/-- A new child and an existing one of its size, with the same parent and the same display, are
put in the same place by a preference if and only if the antipode does not come into it. -/
theorem edge_attachment_alike {s t : Model} {params : SurfaceCreationParameters}
    {auxRect : Rectangle} {attachment : EdgeAttachment} {w p q : Window} {info : WindowInfo}
    (integrity : t.Integrity) (aux : params.auxRect = some auxRect)
    (asks : params.edgeAttachment = some attachment) (unhinted : params.placementHints = none)
    (locked : s.lock params.parent = some p) (managed : s.Managed p)
    (here : t.info? w = some info) (child : t.lock info.parent = some q)
    (rect : t.rect q = s.rect p) (display : t.activeDisplay = s.activeDisplay)
    (size : t.size w = s.outputSize params) (app : ApplicationInfo) :
    ∃ spec, s.placeNewSurface app (.ofCreationParameters params) = .ok spec ∧
      (∀ fuel u, modifyWindow fuel w (.ofSurfaceSpecification params.attachment) t =
          .returned () u →
        ((spec.topLeft = some (u.topLeft w) ∧ spec.size = some (u.size w)) ↔
          params.SameEdge auxRect (s.rect p) s.activeDisplay (s.outputSize params))) ∧
      (∀ fuel failure u, modifyWindow fuel w (.ofSurfaceSpecification params.attachment) t ≠
        .thrown failure u) ∧
      (t.Acyclic → ∃ n, ∀ fuel ≥ n, ∃ u,
        modifyWindow fuel w (.ofSurfaceSpecification params.attachment) t = .returned () u) := by
  have plain : (¬attachment.hints.slideX ∧ ¬attachment.hints.slideY) ∧
      ¬attachment.hints.resizeX ∧ ¬attachment.hints.resizeY := by
    cases attachment <;> decide
  have later : (¬attachment.laterHints.slideX ∧ ¬attachment.laterHints.slideY) ∧
      ¬attachment.laterHints.resizeX ∧ ¬attachment.laterHints.resizeY := plain
  obtain ⟨spec, created, topLeft, size'⟩ := placeNewSurface_attached app locked managed aux asks
    unhinted (search_beside attachment.hints plain.1 plain.2)
  have places : (WindowSpecification.ofSurfaceSpecification params.attachment).Places
      (params.beside auxRect attachment.laterHints (s.rect p) s.activeDisplay) attachment.gravity :=
    places_attachment aux asks
  have placed := places.placeRelative (t.size w)
  rw [(onlyPlaces_attachment asks).size, Option.getD_none, size,
    search_beside attachment.laterHints later.1 later.2, ← size] at placed
  have attached (fuel : Nat) :
      (modifyWindow fuel w (.ofSurfaceSpecification params.attachment)).Ensures t
        (fun _ u => u.rect w = attachment.found
          (params.beside auxRect attachment.laterHints (s.rect p) s.activeDisplay) (t.size w))
        (fun _ _ => False) (t.Short fuel) := by
    apply ensures_modifyWindow_attached integrity here child (onlyPlaces_attachment asks)
    rw [rect, display]
    exact placed
  refine ⟨spec, created, fun fuel u run => ?_, fun fuel failure u thrown => ?_, fun acyclic => ?_⟩
  · have there := (attached fuel).returned run
    rw [← found_eq_iff asks, topLeft, size', Option.some.injEq, Option.some.injEq]
    rw [size] at there
    have split : u.rect w = ⟨u.topLeft w, u.size w⟩ := rfl
    rw [split] at there
    rw [← there]
    generalize attachment.found _ (s.outputSize params) = found
    cases found
    simp
  · exact (attached fuel).thrown thrown
  · obtain ⟨n, enough⟩ := acyclic.enough
    refine ⟨n, fun fuel le => ?_⟩
    obtain ⟨_, u, run, -⟩ := (attached fuel).returns (enough fuel le)
    exact ⟨u, run⟩

theorem Failure.ok_of_toOption {α : Type} {result : Except Failure α} {a : α}
    (some : result.toOption = some a) : result = .ok a := by
  cases result with
  | ok b => rw [Option.some.inj some]
  | error failure => contradiction

/-- A window across the display with a dialog. -/
def Op.barRun : List Op :=
  [.addSession 1,
    .addDisplay ⟨⟨0, 0⟩, ⟨640, 480⟩⟩ (.single 1 ⟨⟨0, 0⟩, ⟨640, 480⟩⟩) [],
    .addSurface 1 { size := ⟨640, 400⟩ } 1,
    .addSurface 1 { size := ⟨100, 80⟩, type := some .dialog, parent := some ⟨1, 1⟩ } 2]

def Model.barState : Model :=
  (Op.follow 12 (fun s op => op.Contract s ∧ op.asksParent = false) Op.barRun .start).get
    (by decide +kernel)

theorem reachable_barState :
    Reachable (fun s op => op.Contract s ∧ op.asksParent = false) barState :=
  (Reachable.initial _ _).follow (Option.some_get _).symm

def SurfaceCreationParameters.menu (attachment : EdgeAttachment) : SurfaceCreationParameters where
  size := ⟨100, 80⟩
  type := some .dialog
  parent := some ⟨1, 1⟩
  auxRect := some ⟨⟨0, 0⟩, ⟨640, 20⟩⟩
  edgeAttachment := some attachment

theorem child_barState : ∃ info, barState.info? ⟨1, 2⟩ = some info ∧
    barState.lock info.parent = some ⟨1, 1⟩ := by
  have child : (barState.info? ⟨1, 2⟩).map (barState.lock ·.parent) = some (some ⟨1, 1⟩) := by
    decide +kernel
  exact Option.map_eq_some_iff.mp child

theorem edge_attachment_alike_vertical : ∃ spec n, ∀ fuel ≥ n, ∃ u,
    barState.placeNewSurface ⟨[]⟩ (.ofCreationParameters (.menu .vertical)) = .ok spec ∧
    modifyWindow fuel ⟨1, 2⟩ (.ofSurfaceSpecification
      (SurfaceCreationParameters.menu .vertical).attachment) barState = .returned () u ∧
    spec.topLeft = some (u.topLeft ⟨1, 2⟩) ∧ spec.size = some (u.size ⟨1, 2⟩) := by
  obtain ⟨info, here, child⟩ := child_barState
  have reached := reachable_barState
  have lock : barState.lock (SurfaceCreationParameters.menu .vertical).parent = some ⟨1, 1⟩ := by
    decide +kernel
  have managed : barState.Managed ⟨1, 1⟩ := by decide +kernel
  have size : barState.size ⟨1, 2⟩ = ⟨100, 80⟩ := by decide +kernel
  revert here child reached lock managed size
  generalize barState = s
  intro here child reached lock managed size
  have integrity : s.Integrity := (reached.mono fun _ _ h => h.1).integrity
  have asks : (SurfaceCreationParameters.menu .vertical).edgeAttachment = some .vertical := rfl
  obtain ⟨spec, created, agree, -, returns⟩ := edge_attachment_alike integrity rfl asks rfl lock
    managed here child rfl rfl size ⟨[]⟩
  obtain ⟨n, enough⟩ := returns reached.acyclic_of_linkless.acyclic.2
  refine ⟨spec, n, fun fuel le => ?_⟩
  obtain ⟨u, run⟩ := enough fuel le
  exact ⟨u, created, run, (agree fuel u run).mpr nofun⟩

/-- Beside the bar there is no room on either side, below it there is. -/
theorem edge_attachment_alike_fails :
    ¬∀ (s : Model) (params : SurfaceCreationParameters) w p info attachment,
      s.Integrity → params.auxRect.isSome → params.edgeAttachment = some attachment →
      params.placementHints = none → s.lock params.parent = some p → s.Managed p →
      s.info? w = some info → s.lock info.parent = some p → s.size w = s.outputSize params →
      ∀ app spec fuel u, s.placeNewSurface app (.ofCreationParameters params) = .ok spec →
        modifyWindow fuel w (.ofSurfaceSpecification params.attachment) s = .returned () u →
        spec.topLeft = some (u.topLeft w) ∧ spec.size = some (u.size w) := by
  intro claim
  obtain ⟨info, here, child⟩ := child_barState
  have integrity : barState.Integrity := (reachable_barState.mono fun _ _ h => h.1).integrity
  have created : (barState.placeNewSurface ⟨[]⟩ (.ofCreationParameters (.menu .any))).toOption.map
      (·.topLeft) = some (some ⟨640, 27⟩) := by decide +kernel
  have moved : (modifyWindow 12 ⟨1, 2⟩ (.ofSurfaceSpecification
      (SurfaceCreationParameters.menu .any).attachment) barState).returned?.map
        (·.topLeft ⟨1, 2⟩) = some ⟨0, 47⟩ := by decide +kernel
  obtain ⟨spec, ok, place⟩ := Option.map_eq_some_iff.mp created
  obtain ⟨u, run, place'⟩ := Option.map_eq_some_iff.mp moved
  obtain ⟨_, run⟩ := Outcome.returned?_eq_some.mp run
  have same := (claim barState (.menu .any) ⟨1, 2⟩ ⟨1, 1⟩ info .any integrity rfl rfl rfl
    (by decide +kernel) (by decide +kernel) here child (by decide +kernel) ⟨[]⟩ spec 12 u
    (Failure.ok_of_toOption ok) run).1
  rw [place, place'] at same
  exact absurd same (by decide)

end Miral
