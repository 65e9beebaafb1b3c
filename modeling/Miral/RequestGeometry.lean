import Miral.RoundTrip
import Miral.FullscreenPlacement

/-! The rectangle a request leaves a window with. A policy may decide how a window is placed, and
how the windows below it follow; the phases of `modify_window` are the same. -/
namespace Miral

open Program Prog Forest Model

abbrev Placement := Window → Point → Size → Manager Unit

section Phases

variable (place : Placement)

/-- The geometry phase of `modify_window`. -/
def updateGeometryWith (w : Window) (modifications : WindowSpecification) : Manager Unit := do
  let info ← infoFor w
  let s ← Prog.state
  let newPos := modifications.topLeft.getD (s.topLeft w)
  match modifications.size with
  | some size => place w newPos size
  | none =>
    if modifications.constrains then do
      let (pos, size) ← Prog.ofExcept (info.constrainResize (s.rect w) newPos (s.size w))
      place w pos size
    else Prog.onlyIf modifications.topLeft.isSome (place w newPos (s.size w))

def updatePlacementWith (w : Window) (modifications : WindowSpecification) : Manager Unit :=
  Prog.onlyIf modifications.placementHints.isSome do
    let info ← infoFor w
    let s ← Prog.state
    Prog.whenSome (s.lock info.parent) fun parent => do
      let rect ← Prog.ofExcept
        (placeRelative s.activeDisplay (s.rect parent) modifications (s.size w))
      place w rect.topLeft rect.size
      let s ← Prog.state
      let origin := s.topLeft parent
      emit (.placedRelative w
        ⟨⟨(s.topLeft w).x - origin.x, (s.topLeft w).y - origin.y⟩, s.size w⟩)

/-- `modify_window`. -/
def modifyWindowWith (fuel : Nat) (w : Window) (modifications : WindowSpecification) :
    Manager Unit := do
  let tmp ← requestedInfo w modifications
  swapInfo w tmp
  updateSurface w modifications
  cacheRestoreRect w modifications
  updateGeometryWith place w modifications
  updatePlacementWith place w modifications
  Prog.whenSome modifications.state (setState fuel w)
  Prog.whenSome modifications.confinePointer fun confinePointer =>
    configure w ({ · with confinePointer })

end Phases

theorem modifyWindow_eq (fuel : Nat) :
    modifyWindow fuel = modifyWindowWith (placeAndSize fuel) fuel :=
  rfl

namespace Model

/-- `active_display()`, if the windows were elsewhere. -/
def activeDisplayWith (s : Model) (rects : Window → Rectangle) : Rectangle :=
  match s.lock s.focus.surface with
  | some w => largestOverlap (rects w) s.displays (-1) default
  | none => s.activeDisplay

/-- The state with the record and the links of a window as a request asks for them. -/
def asked (s : Model) (w : Window) (info : WindowInfo) (request : WindowSpecification) : Model :=
  s.setInfo w (info.requestedBy request)

end Model

/-- What a way of placing windows does: `after` is where all of them are, once `w` has been given
a rectangle and the links above it end, and `kept` is what holds of `w` in any case. -/
structure Places (place : Placement)
    (after : Model → Nat → Window → Rectangle → Window → Rectangle)
    (kept : Model → Window → Rectangle → Rectangle → Prop) : Prop where
  ensures : ∀ s w rect, s.Integrity → s.Live w → (place w rect.topLeft rect.size).Ensures s
    (fun _ t => Moved w s t ∧
      (Rooted s.parentOf w → ∀ depth, (∀ v n, climb s.parentOf n v = some w → n ≤ depth) →
        t.rect = after s depth w rect) ∧ kept s w rect (t.rect w)) (fun _ _ => False) True
  self : ∀ s depth w rect, after s depth w rect w = rect
  parent : ∀ s depth w rect p, Rooted s.parentOf w → s.parentOf w = some p →
    after s depth w rect p = s.rect p
  idle : ∀ s depth w, after s depth w (s.rect w) = s.rect
  stays : ∀ s w, kept s w (s.rect w) (s.rect w)
  congr : ∀ s t, t.rect = s.rect → t.parentOf = s.parentOf →
    (∀ v, (t.info? v).map (·.userdata) = (s.info? v).map (·.userdata)) →
    after t = after s ∧ kept t = kept s

def Model.placementAsked (after : Model → Nat → Window → Rectangle → Window → Rectangle) (s : Model)
    (w : Window) (info : WindowInfo) (request : WindowSpecification) (rect : Rectangle) :
    Except Failure (Option Rectangle) :=
  if request.placementHints.isSome then
    match s.lock (request.parent.getD info.parent) with
    | some parent => do
      let display := s.activeDisplayWith
        (after (s.asked w info request) s.windowInfo.keys.length w rect)
      let rect ← placeRelative display (s.rect parent) request rect.size
      pure (some rect)
    | none => .ok none
  else .ok none

def Model.Unhinted (s : Model) (info : WindowInfo) (request : WindowSpecification) : Prop :=
  request.placementHints = none ∨ s.lock (request.parent.getD info.parent) = none

variable {s t u : Model} {w v : Window} {info tmp : WindowInfo} {fuel depth : Nat}
  {rect : Rectangle} {request : WindowSpecification} {place : Placement}
  {after : Model → Nat → Window → Rectangle → Window → Rectangle}
  {kept : Model → Window → Rectangle → Rectangle → Prop}

theorem activeDisplay_undisturbed (same : Undisturbed s t) :
    t.activeDisplay = s.activeDisplayWith t.rect := by
  unfold activeDisplayWith activeDisplay
  have focus : t.focus = s.focus := by rw [same.frame]
  have cursor : t.cursor = s.cursor := by rw [same.frame]
  rw [focus, cursor, same.displays, same.lock]
  cases s.lock s.focus.surface <;> rfl

theorem parent_asked (integrity : s.Integrity) (here : s.info? w = some info)
    (requested : Requested s request info tmp)
    (orphan : (request.type.getD info.type).mustNotHaveParent →
      s.lock (request.parent.getD info.parent) = none) :
    tmp.parent = request.parent.getD info.parent := by
  cases asks : request.parent with
  | some weak =>
    obtain ⟨p, rfl, -, eq⟩ := requested.linked asks
    exact eq
  | none =>
    rcases requested.kept asks with same | gone
    · exact same
    · rcases gone with ⟨unlinked, -, forbidden⟩
      have type : tmp.type = request.type.getD info.type := by
        rw [requested.copied]
        rfl
      rw [type] at forbidden
      have alone := orphan forbidden
      rw [asks, Option.getD_none, integrity.lock_parent here] at alone
      rw [unlinked, Option.getD_none, alone]

theorem tmp_asked (integrity : s.Integrity) (here : s.info? w = some info)
    (requested : Requested s request info tmp)
    (orphan : (request.type.getD info.type).mustNotHaveParent →
      s.lock (request.parent.getD info.parent) = none) : tmp = info.requestedBy request := by
  rw [requested.copied, parent_asked integrity here requested orphan]
  rfl

theorem checkParent_forbidden {type : WindowType} (forbidden : type.mustNotHaveParent) :
    ∃ failure, checkParent type true = .error failure := by
  cases type <;> first | exact ⟨_, rfl⟩ | contradiction

theorem orphan_of_valid (valid : s.validateModificationRequest request info = .ok ())
    (forbidden : (request.type.getD info.type).mustNotHaveParent) :
    s.lock (request.parent.getD info.parent) = none := by
  by_contra locked
  have parent : s.hasParent request info = true := Option.isSome_iff_ne_none.mpr locked
  obtain ⟨failure, refused⟩ := checkParent_forbidden forbidden
  unfold validateModificationRequest at valid
  cases types : checkSome (checkTypeChange info.type) request.type with
  | error failure =>
    rw [types] at valid
    contradiction
  | ok _ =>
    rw [types, parent, refused] at valid
    contradiction

section Placement

theorem placementAsked_unhinted (idle : s.Unhinted info request) :
    s.placementAsked after w info request rect = .ok none := by
  unfold placementAsked
  rcases idle with unset | alone
  · rw [if_neg (by simp [unset])]
  · rw [alone]
    split <;> rfl

theorem placementAsked_hinted (hinted : ¬s.Unhinted info request) {placed : Option Rectangle}
    (found : s.placementAsked after w info request rect = .ok placed) :
    ∃ there, placed = some there := by
  unfold placementAsked at found
  rw [if_pos (Option.isSome_iff_ne_none.mpr fun unset => hinted (.inl unset))] at found
  split at found
  · rename_i parent _
    dsimp only at found
    cases search : placeRelative (s.activeDisplayWith
        (after (s.asked w info request) s.windowInfo.keys.length w rect)) (s.rect parent) request
        rect.size with
    | error failure =>
      rw [search] at found
      contradiction
    | ok there =>
      rw [search] at found
      exact ⟨there, (Except.ok.inj found).symm⟩
  · rename_i alone
    exact absurd (.inr alone) hinted

end Placement

section Depth

theorem keys_of_managed (managed : s.Managed w) : w ∈ s.windowInfo.keys :=
  AList.mem_keys.mp (AList.lookup_isSome.mp managed)

theorem depth_asked (here : s.info? w = some info)
    (rooted : Rooted (s.asked w info request).parentOf w) (v : Window) (n : Nat)
    (reached : climb (s.asked w info request).parentOf n v = some w) :
    n ≤ s.windowInfo.keys.length := by
  obtain ⟨m, ended⟩ := rooted
  refine climb_le_length ⟨n + m, by rw [climb_add, reached]; exact ended⟩ (fun u _ linked => ?_)
    reached
  obtain ⟨p, link⟩ := Option.isSome_iff_exists.mp linked
  have known := managed_of_parentOf link
  rw [asked, managed_setInfo] at known
  rcases known with rfl | managed
  · exact keys_of_managed (managed_iff.mpr ⟨info, here⟩)
  · exact keys_of_managed managed

end Depth

section Rules

variable (places : Places place after kept)

include places

theorem Places.ensures_updateGeometry (integrity : s.Integrity) (here : s.info? w = some info) :
    (updateGeometryWith place w request).Ensures s
      (fun _ t => Moved w s t ∧ ∃ rect, s.requestedRect w info request = .ok rect ∧
        (Rooted s.parentOf w → ∀ depth, (∀ v n, climb s.parentOf n v = some w → n ≤ depth) →
          t.rect = after s depth w rect) ∧ kept s w rect (t.rect w))
      (fun _ _ => True) True := by
  have live := integrity.live_of_info here
  have given (rect : Rectangle) (asks : s.requestedRect w info request = .ok rect) :
      (place w rect.topLeft rect.size).Ensures s
        (fun _ t => Moved w s t ∧ ∃ rect, s.requestedRect w info request = .ok rect ∧
          (Rooted s.parentOf w → ∀ depth, (∀ v n, climb s.parentOf n v = some w → n ≤ depth) →
            t.rect = after s depth w rect) ∧ kept s w rect (t.rect w))
        (fun _ _ => True) True :=
    (places.ensures s w rect integrity live).mono
      (fun _ _ h => ⟨h.1, rect, asks, h.2⟩) (fun _ _ _ => trivial) id
  rw [updateGeometryWith, ensures_bind, ensures_infoFor_here here, ensures_bind, ensures_state]
  cases sized : request.size with
  | some size =>
    exact given ⟨request.topLeft.getD (s.topLeft w), size⟩ (by simp [requestedRect, sized])
  | none =>
    dsimp only
    by_cases constrains : request.constrains
    · rw [if_pos constrains, ensures_bind, ensures_ofExcept]
      constructor
      · intro found ok
        exact given ⟨found.1, found.2⟩ (by simp [requestedRect, sized, constrains, ok])
      · exact fun _ _ => trivial
    · rw [if_neg constrains, ensures_onlyIf]
      constructor
      · intro _
        exact given ⟨request.topLeft.getD (s.topLeft w), s.size w⟩
          (by simp [requestedRect, sized, constrains])
      · intro unset
        simp only [Option.isSome_iff_ne_none, ne_eq, not_not] at unset
        refine ⟨.refl, s.rect w, ?_, fun _ depth _ => (places.idle s depth w).symm,
          places.stays s w⟩
        simp [requestedRect, sized, constrains, unset, Model.rect]

theorem Places.ensures_updatePlacement (integrity : s.Integrity) (here : s.info? w = some info) :
    (updatePlacementWith place w request).Ensures s
      (fun _ t => Moved w s t ∧ ∃ placed, s.placementRect w info request = .ok placed ∧
        (placed = none → t = s) ∧
        (Rooted s.parentOf w → ∀ depth, (∀ v n, climb s.parentOf n v = some w → n ≤ depth) →
          ∀ rect ∈ placed, t.rect w = rect))
      (fun _ _ => True) True := by
  rw [updatePlacementWith, ensures_onlyIf]
  constructor
  swap
  · intro unset
    refine ⟨.refl, none, by simp [placementRect, unset], fun _ => rfl, ?_⟩
    intro _ _ _ rect placed
    simp at placed
  intro hints
  rw [ensures_bind, ensures_infoFor_here here, ensures_bind, ensures_state, ensures_whenSome]
  constructor
  · intro parent locked
    rw [ensures_bind, ensures_ofExcept]
    constructor
    · intro rect ok
      have live := integrity.live_of_info here
      apply (places.ensures s w rect integrity live).bind_throwless
      intro _ t done
      rcases done with ⟨moved, followed, -⟩
      refine ⟨moved.trans (moved_emit rfl), some rect, ?_, ?_, ?_⟩
      · simp [placementRect, hints, locked, ok]
      · intro unplaced
        simp at unplaced
      · intro rooted depth bound _ eq
        obtain rfl := Option.some.inj eq
        have there : t.rect w = after s depth w rect w := by rw [followed rooted depth bound]
        rw [places.self] at there
        exact there
    · exact fun _ _ => trivial
  · intro orphan
    refine ⟨.refl, none, by simp [placementRect, hints, orphan], fun _ => rfl, ?_⟩
    intro _ _ _ rect placed
    simp at placed

end Rules

/-- The last two phases leave the window where it is. -/
theorem ensures_restated (integrity : s.Integrity) (here : s.info? w = some info) :
    Ensures (do
      whenSome request.state (setState fuel w)
      whenSome request.confinePointer fun confinePointer =>
        configure w ({ · with confinePointer })) s
      (fun _ t => Standing s w (s.rect w) { info with state := request.state.getD info.state } t)
      (fun _ _ => False) True := by
  have confine (t : Model) {record : WindowInfo} (standing : Standing s w (s.rect w) record t) :
      (whenSome request.confinePointer fun confinePointer =>
        configure w ({ · with confinePointer })).Ensures t
        (fun _ u => Standing s w (s.rect w) record u) (fun _ _ => False) True := by
    rw [ensures_whenSome]
    refine ⟨fun confinePointer _ => ?_, fun _ => standing⟩
    have touched : Retouched t (t.configure w ({ · with confinePointer })) :=
      .configure fun _ => rfl
    rw [ensures_configure]
    refine ⟨touched.integrity standing.integrity, fun v => ?_, ?_, ?_, ?_, ?_⟩
    · rw [touched.sameStructure.parents, standing.parents]
    · rw [touched.undisturbed.displays, standing.displays]
    · rw [touched.undisturbed.displayLayout, standing.displayLayout]
    · rw [← standing.rect]
      cases drawn : t.surface? w <;> simp [Model.rect, topLeft, size, drawn]
    · rw [info?_configure, standing.record]
  have standing : Standing s w (s.rect w) info s :=
    ⟨integrity, fun _ => rfl, rfl, rfl, rfl, here⟩
  rw [ensures_bind, ensures_whenSome]
  constructor
  · intro value asks
    rw [asks]
    exact standing.setState.mono (fun _ t h => confine t h) (fun _ _ h => h) fun _ => trivial
  · intro unset
    rw [unset]
    exact confine s standing

/-- How a request answered leaves a window, where `rect` is what its geometry phase is to give
it. -/
structure Answered (after : Model → Nat → Window → Rectangle → Window → Rectangle)
    (kept : Model → Window → Rectangle → Rectangle → Prop) (s : Model) (w : Window)
    (info : WindowInfo) (request : WindowSpecification) (rect : Rectangle) (t : Model) : Prop where
  integrity : t.Integrity
  displayLayout : t.displayLayout = s.displayLayout
  record : ∃ restoreRect children, t.info? w = some { info.requestedBy request with
    restoreRect := restoreRect, children := children, state := request.state.getD info.state }
  sized : s.requestedRect w (info.copyIfSet request) request = .ok rect
  unhinted : s.Unhinted info request → kept (s.asked w info request) w rect (t.rect w)
  placed : Rooted (s.asked w info request).parentOf w →
    ∃ placed, s.placementAsked after w info request rect = .ok placed ∧
      t.rect w = placed.getD rect

/-- What the placement phase looks for, from where the geometry phase ends. -/
theorem Places.placementAsked (places : Places place after kept) (same : Undisturbed s t)
    (parent : tmp.parent = request.parent.getD info.parent)
    (rooted : Rooted (s.asked w info request).parentOf w)
    (followed : t.rect = after (s.asked w info request) s.windowInfo.keys.length w rect) :
    t.placementRect w tmp request = s.placementAsked after w info request rect := by
  have self : t.rect w = rect := by rw [followed, places.self]
  have size : t.size w = rect.size := congrArg Rectangle.size self
  unfold placementRect Model.placementAsked
  rw [parent, same.lock]
  split
  · cases locked : s.lock (request.parent.getD info.parent) with
    | none => rfl
    | some p =>
      have link : (s.asked w info request).parentOf w = some p := by
        rw [asked, parentOf_setInfo, if_pos rfl]
        exact (lock_eq_some.mp locked).1
      have there : t.rect p = s.rect p := by
        rw [followed]
        exact places.parent _ _ _ _ _ rooted link
      dsimp only
      rw [activeDisplay_undisturbed same, there, size, followed]
  · rfl

/-- One rule for the geometry of a request, whatever the policy. -/
theorem Places.ensures_modifyWindow (places : Places place after kept) (integrity : s.Integrity)
    (here : s.info? w = some info)
    (orphan : (request.type.getD info.type).mustNotHaveParent →
      s.lock (request.parent.getD info.parent) = none) :
    (modifyWindowWith place fuel w request).Ensures s
      (fun _ t => ∃ rect, Answered after kept s w info request rect t)
      (fun _ _ => True) True := by
  refine (ensures_bind ..).mpr ((ensures_requestedInfo here).mono ?_ (fun _ _ _ => trivial) id)
  intro tmp t outcome
  rcases outcome with ⟨rfl, requested⟩
  have filled := tmp_asked integrity here requested orphan
  have parent := parent_asked integrity here requested orphan
  apply ensures_prepare integrity here requested
  intro s₃ prepared rects
  obtain ⟨restoreRect, cached⟩ := t.cachedInfo_eq w tmp request.state
  have links : s₃.parentOf = (t.asked w info request).parentOf := by
    funext v
    rw [prepared.parents, filled, asked, parentOf_setInfo]
  have alike := places.congr (t.asked w info request) s₃ (funext rects) links (by
    intro v
    rw [prepared.infos, asked, info?_setInfo, ← filled, cached]
    by_cases eq : v = w
    · simp [eq]
    · cases t.info? v <;> simp [eq])
  obtain ⟨record, there⟩ : ∃ record, s₃.info? w = some record := ⟨_, prepared.record⟩
  have asks : s₃.requestedRect w record request =
      t.requestedRect w (info.copyIfSet request) request := by
    rw [prepared.requestedRect (rects w) there, requested.copied]
    rfl
  apply (places.ensures_updateGeometry prepared.integrity there).bind
  intro _ s₄ outcome
  rcases outcome with ⟨moved, rect, sized, followed, keeps⟩
  rw [asks] at sized
  rw [links, alike.1] at followed
  rw [alike.2] at keeps
  have same := prepared.moved moved
  have links₄ : s₄.parentOf = (t.asked w info request).parentOf := moved.parentOf.trans links
  apply (places.ensures_updatePlacement same.integrity same.record).bind
  intro _ s₅ outcome
  rcases outcome with ⟨moved', placed, found, unplaced, arrives⟩
  rw [links₄] at arrives
  have last := same.moved moved'
  have search : s₄.placementRect w tmp request = .ok placed := by
    rw [← found, cached]
    rfl
  refine (ensures_restated last.integrity last.record).mono ?_ (fun _ _ h => h.elim) id
  intro _ u standing
  refine ⟨rect, standing.integrity, ?_, ?_, sized, fun idle => ?_, fun rooted => ⟨placed, ?_, ?_⟩⟩
  · rw [standing.displayLayout, last.undisturbed.displayLayout]
  · refine ⟨restoreRect, s₅.childrenOf w, ?_⟩
    rw [standing.record, cached, requested.state, filled]
  · have missing : placed = none := by
      rw [placementRect, parent, same.undisturbed.lock] at search
      rcases idle with unset | alone
      · rw [if_neg (by simp [unset])] at search
        exact (Except.ok.inj search).symm
      · rw [alone] at search
        split at search <;> exact (Except.ok.inj search).symm
    rw [standing.rect, unplaced missing]
    exact keeps
  · rw [← places.placementAsked same.undisturbed parent rooted
      (followed rooted _ (depth_asked here rooted)), search]
  · rw [standing.rect]
    cases placed with
    | none =>
      rw [unplaced rfl, followed rooted _ (depth_asked here rooted)]
      exact places.self _ _ _ _
    | some there => exact arrives rooted _ (depth_asked here rooted) there rfl

end Miral
