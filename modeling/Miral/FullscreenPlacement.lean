import Miral.Reachability
import Mathlib.Data.List.Dedup

/-! Where `add_display` and `remove_display` leave the fullscreen windows: placing one moves
the windows below it, so the result depends on the order of the placements. -/
namespace Miral

open Program Prog Forest Model

namespace Model

variable {s t u : Model} {root v w : Window} {movement : Displacement}

/-- Every window of the tree below `root` moves by the same displacement. -/
def Carried (root : Window) (movement : Displacement) (s t : Model) : Prop :=
  ∀ v, Above s.parentOf root v → s.Live v → t.topLeft v = s.topLeft v + movement

theorem Moved.topLeft_outside (moved : Moved root s t) (apart : ¬Above s.parentOf root v) :
    t.topLeft v = s.topLeft v := by
  rw [topLeft, topLeft, moved.outside v apart]

theorem Moved.rect_outside (moved : Moved root s t) (apart : ¬Above s.parentOf root v) :
    t.rect v = s.rect v := by
  rw [rect, rect, topLeft, topLeft, size, size, moved.outside v apart]

end Model

variable {s t u : Model} {root v w : Window} {fuel : Nat} {movement : Displacement}

theorem ensures_moveChild {R : Window → Model → Model → Prop}
    (any : ∀ {s : Model} {root : Window}, s.Integrity → Rooted s.parentOf root → s.Live root →
      (moveTree fuel root movement).Ensures s (fun _ t => R root s t) (fun _ _ => False) True)
    (integrity : s.Integrity) (rooted : Rooted s.parentOf root) (t : Model) (moved : Moved root s t)
    (c : Window) (link : s.parentOf c = some root) :
    (moveTree fuel c movement).Ensures t (fun _ u => Moved c t u ∧ R c t u) (fun _ _ => False)
      True := by
  have kept := moved.integrity integrity
  have childLive := moved.live_child integrity link
  exact ((ensures_moveTree kept childLive movement).and
    (any kept (moved.rooted_child rooted link) childLive)).mono
    (fun _ _ h => ⟨h.1.1, h.2⟩) (fun _ _ h => h.1) fun _ => trivial

/-- The loop of `move_tree` is the movements of the trees of the children, one after the other. -/
theorem ensures_moveChildren_steps {R : Window → Model → Model → Prop} {children : List Window}
    (move : ∀ t, Moved root s t → ∀ c, s.parentOf c = some root →
      (moveTree fuel c movement).Ensures t (fun _ u => Moved c t u ∧ R c t u)
        (fun _ _ => False) True)
    (linked : ∀ c ∈ children, s.parentOf c = some root) (moved : Moved root s t) :
    (forEach (fun child => do
        let _ ← infoFor child
        let s ← Prog.state
        let pos := s.topLeft child + movement
        moveTree fuel child (pos - s.topLeft child)) children).Ensures t
      (fun _ u => Steps (fun c t u => Moved root s t ∧ Moved c t u ∧ R c t u) children t u ∧
        Moved root s u)
      (fun _ _ => False) True := by
  refine ensures_forEach_steps (Moved root s) _ children ?_ moved
  intro c member t moved
  have link := linked c member
  have managed : t.Managed c := (moved.sameStructure.managed c).mpr (managed_of_parentOf link)
  obtain ⟨info, here⟩ := managed_iff.mp managed
  rw [ensures_bind, ensures_infoFor_here here, ensures_bind, ensures_state]
  dsimp only
  rw [Point.add_sub_cancel]
  refine (move t moved c link).imp ?_
  intro _ u after
  rcases after with ⟨moved', done⟩
  have below : Above t.parentOf root c := by
    rw [moved.parentOf]
    exact .link link .refl
  exact ⟨⟨moved, moved', done⟩, moved.trans (moved'.below below)⟩

/-- Each child takes its own tree along, and no other. -/
theorem carried_of_steps (rooted : Rooted s.parentOf root) {children : List Window}
    (distinct : children.Nodup) (linked : ∀ c ∈ children, s.parentOf c = some root)
    (steps : Steps (fun c t u => Moved root s t ∧ Moved c t u ∧ Carried c movement t u)
      children t u) :
    (∀ v, (∃ c ∈ children, Above s.parentOf c v) → s.Live v →
      u.topLeft v = t.topLeft v + movement) ∧
    ∀ v, (∀ c ∈ children, ¬Above s.parentOf c v) → u.topLeft v = t.topLeft v := by
  induction steps with
  | nil t => exact ⟨by simp, fun _ _ => rfl⟩
  | cons step steps ih =>
    rename_i c rest t x u
    obtain ⟨moved, moved', carried⟩ := step
    obtain ⟨fresh, distinct⟩ := List.nodup_cons.mp distinct
    obtain ⟨inside, apart⟩ := ih distinct fun c' member => linked c' (by simp [member])
    have link := linked c (by simp)
    have outside (v : Window) (apart : ¬Above s.parentOf c v) : x.topLeft v = t.topLeft v :=
      moved'.topLeft_outside (by rwa [moved.parentOf])
    rw [Carried, moved.parentOf] at carried
    constructor
    · rintro v ⟨c', member, above⟩ live
      rcases List.mem_cons.mp member with rfl | member
      · have alone : ∀ c ∈ rest, ¬Above s.parentOf c v := by
          rintro c other below
          exact fresh (Above.sibling rooted link (linked c (by simp [other])) above below ▸ other)
        rw [apart v alone, carried v above (moved.live.mpr live)]
      · have ne : ¬Above s.parentOf c v := by
          intro below
          exact fresh (Above.sibling rooted link (linked c' (by simp [member])) below above ▸
            member)
        rw [inside v ⟨c', member, above⟩ live, outside v ne]
    · intro v away
      rw [apart v fun c' member => away c' (by simp [member]), outside v (away c (by simp))]

/-- `move_tree` moves every window of a rooted tree by the movement it is given. -/
theorem ensures_moveTree_carried (integrity : s.Integrity) (rooted : Rooted s.parentOf root)
    (live : s.Live root) (movement : Displacement) :
    (moveTree fuel root movement).Ensures s
      (fun _ t => Moved root s t ∧ Carried root movement s t) (fun _ _ => False) True := by
  suffices carried : (moveTree fuel root movement).Ensures s
      (fun _ t => Carried root movement s t) (fun _ _ => False) True from
    ((ensures_moveTree integrity live movement).and carried).mono
      (fun _ _ h => ⟨h.1.1, h.2⟩) (fun _ _ h => h.1) fun _ => trivial
  induction fuel generalizing s root movement with
  | zero => trivial
  | succ fuel ih =>
    rw [moveTree, ensures_ite]
    constructor
    · rintro rfl v - -
      exact Point.ext (by simp) (by simp)
    · intro moves
      apply ensures_moveRoot integrity live
      intro info s₁ here step
      obtain ⟨moved, -, placed, others, -⟩ := step
      have linked (c : Window) : c ∈ info.children ↔ s.parentOf c = some root :=
        integrity.mem_children here
      have move := ensures_moveChild (fun kept rooted live => ih kept rooted live movement)
        integrity rooted
      refine (ensures_moveChildren_steps move (fun c member => (linked c).mp member) moved).imp ?_
      intro _ t after v above live'
      rcases after with ⟨steps, -⟩
      obtain ⟨inside, apart⟩ := carried_of_steps rooted (integrity.children_nodup here)
        (fun c member => (linked c).mp member) steps
      by_cases eq : v = root
      · subst eq
        have alone : ∀ c ∈ info.children, ¬Above s.parentOf c v := by
          intro c member above
          exact ((rooted_link ((linked c).mp member)).mpr rooted).not_above_parent
            ((linked c).mp member) above
        rw [apart v alone, placed]
      · obtain ⟨n, reached⟩ := above
        cases n with
        | zero => exact absurd (Option.some.inj reached) eq
        | succ n =>
          obtain ⟨c, up, link⟩ := climb_last reached
          rw [inside v ⟨c, (linked c).mpr link, n, up⟩ live', others v eq]

namespace Model

/-- A window has been given a rectangle, and its tree has come along. -/
structure Placed (w : Window) (rect : Rectangle) (s t : Model) : Prop where
  moved : Moved w s t
  placed : t.rect w = rect
  sizes : ∀ v, v ≠ w → t.size v = s.size v
  carried : Carried w (rect.topLeft - s.topLeft w) s t

theorem Placed.still {rect : Rectangle} (placed : Placed w rect s t)
    (there : rect.topLeft = s.topLeft w) (live : s.Live v) (ne : v ≠ w) : t.rect v = s.rect v := by
  by_cases below : Above s.parentOf w v
  · have same : t.topLeft v = s.topLeft v := by
      rw [placed.carried v below live, there]
      exact Point.ext (by simp) (by simp)
    rw [Model.rect, Model.rect, same, placed.sizes v ne]
  · exact placed.moved.rect_outside below

end Model

theorem ensures_placeAndSize_placed (integrity : s.Integrity) (grounded : Rooted s.parentOf w)
    (live : s.Live w) (rect : Rectangle) :
    (placeAndSize fuel w rect.topLeft rect.size).Ensures s (fun _ t => Placed w rect s t)
      (fun _ _ => False) (s.Short fuel) := by
  suffices carried : (placeAndSize fuel w rect.topLeft rect.size).Ensures s
      (fun _ t => (∀ v, v ≠ w → t.size v = s.size v) ∧
        Carried w (rect.topLeft - s.topLeft w) s t) (fun _ _ => False) True from
    ((ensures_placeAndSize integrity live _ _).and carried).mono
      (fun _ _ h => ⟨h.1.1, h.1.2.1, h.2.1, h.2.2⟩) (fun _ _ h => h.1) And.left
  apply ensures_resize live
  intro t resized
  obtain ⟨moved, -, sizes, still, -⟩ := resized
  have kept := moved.integrity integrity
  have live' := moved.live.mpr live
  have rooted : Rooted t.parentOf w := by
    rw [moved.parentOf]
    exact grounded
  rw [ensures_bind, ensures_state]
  refine ((ensures_moveTree kept live' _).and
    (ensures_moveTree_carried kept rooted live' _)).mono ?_ (fun _ _ h => h.1) fun _ => trivial
  intro _ u after
  rcases after with ⟨⟨-, sized, -⟩, -, carried⟩
  constructor
  · intro v ne
    exact (sized v).trans (sizes v ne)
  · intro v above alive
    rw [carried v (by rwa [moved.parentOf]) (moved.live.mpr alive), still, still]

namespace Model

theorem Integrity.live_fullscreen (integrity : s.Integrity)
    (member : w ∈ s.fullscreenSurfaces) : s.Live w := by
  have full := (integrity.fullscreen w).mp member
  obtain ⟨info, here, -⟩ := Option.map_eq_some_iff.mp full
  exact integrity.live_of_info here

def InPlace (s : Model) (w : Window) : Prop :=
  ∀ info, s.info? w = some info → (s.fullscreenRectFor w info).topLeft = s.topLeft w

/-- No fullscreen window strictly above `w` is about to move. -/
def Guarded (s : Model) (w : Window) : Prop :=
  ∀ a ∈ s.fullscreenSurfaces, Above s.parentOf a w → a ≠ w → s.InPlace a

/-- How far a loop over the fullscreen windows has come, with `pending` still to be placed. -/
structure Placing (s : Model) (pending : List Window) (t : Model) : Prop where
  frame : t = { s with scene := t.scene, log := t.log }
  integrity : t.Integrity
  live : ∀ v, t.Live v ↔ s.Live v
  waiting : ∀ v ∈ s.fullscreenSurfaces, s.Guarded v → v ∈ pending → t.rect v = s.rect v
  settled : ∀ v ∈ s.fullscreenSurfaces, s.Guarded v → v ∉ pending → ∀ info,
    s.info? v = some info → t.rect v = s.fullscreenRectFor v info

namespace Placing

variable {pending : List Window} {info : WindowInfo}

theorem parentOf (placing : Placing s pending t) : t.parentOf = s.parentOf := by
  rw [placing.frame]
  rfl

theorem info? (placing : Placing s pending t) : t.info? v = s.info? v := by
  rw [placing.frame]
  rfl

theorem fullscreen (placing : Placing s pending t) :
    t.fullscreenSurfaces = s.fullscreenSurfaces := by
  rw [placing.frame]

theorem acyclic (placing : Placing s pending t) (acyclic : s.Acyclic) : t.Acyclic := by
  intro v _
  rw [placing.parentOf]
  exact acyclic.rooted v

theorem fullscreenRectFor (placing : Placing s pending t) (same : t.rect v = s.rect v) :
    t.fullscreenRectFor v info = s.fullscreenRectFor v info := by
  rw [Model.fullscreenRectFor, Model.fullscreenRectFor, same, placing.frame]

theorem still {rest : List Window} (placing : Placing s (w :: rest) t) (acyclic : s.Acyclic)
    (listed : w ∈ s.fullscreenSurfaces) (here : s.info? w = some info)
    (placed : Placed w (t.fullscreenRectFor w info) t u)
    (guarded : s.Guarded v) (live : s.Live v) (ne : v ≠ w) : u.rect v = t.rect v := by
  by_cases below : Above t.parentOf w v
  · rw [placing.parentOf] at below
    -- a window above a guarded one is guarded itself, so it is still where it was
    have first : s.Guarded w := by
      intro a member above apart
      refine guarded a member (above.trans below) fun eq => apart ?_
      subst eq
      exact above.antisymm (acyclic.rooted w) below
    have same : t.rect w = s.rect w := placing.waiting w listed first (by simp)
    refine placed.still ?_ ((placing.live v).mpr live) ne
    rw [placing.fullscreenRectFor same, guarded w listed below (Ne.symm ne) info here]
    exact congrArg Rectangle.topLeft same.symm
  · exact placed.moved.rect_outside below

theorem step {rest : List Window} (placing : Placing s (w :: rest) t)
    (integrity : s.Integrity) (acyclic : s.Acyclic) (fresh : w ∉ rest)
    (listed : w ∈ s.fullscreenSurfaces) (here : s.info? w = some info)
    (placed : Placed w (t.fullscreenRectFor w info) t u) : Placing s rest u where
  frame := by rw [placed.moved.frame, placing.frame]
  integrity := placed.moved.integrity placing.integrity
  live v := placed.moved.live.trans (placing.live v)
  waiting v member guarded waits := by
    have ne : v ≠ w := fun eq => fresh (eq ▸ waits)
    rw [placing.still acyclic listed here placed guarded (integrity.live_fullscreen member) ne]
    exact placing.waiting v member guarded (by simp [waits])
  settled v member guarded done info' here' := by
    by_cases eq : v = w
    · subst eq
      obtain rfl := Option.some.inj (here.symm.trans here')
      rw [placed.placed, placing.fullscreenRectFor]
      exact placing.waiting v member guarded (by simp)
    · rw [placing.still acyclic listed here placed guarded (integrity.live_fullscreen member) eq]
      exact placing.settled v member guarded (by simp [eq, done]) info' here'

end Placing

theorem Placing.start (integrity : s.Integrity) {order : List Window}
    (listed : ∀ w ∈ s.fullscreenSurfaces, w ∈ order) : Placing s order s where
  frame := rfl
  integrity := integrity
  live _ := Iff.rfl
  waiting _ _ _ _ := rfl
  settled v member _ done := absurd (listed v member) done

end Model

theorem ensures_placeFullscreen_cons {info : WindowInfo} {rest : List Window}
    {post : Unit → Model → Prop} {short : Prop} (integrity : s.Integrity) (acyclic : s.Acyclic)
    (here : s.info? w = some info) (enough : s.Short fuel → short)
    (later : ∀ t, Placed w (s.fullscreenRectFor w info) s t →
      (placeFullscreen fuel rest).Ensures t post (fun _ _ => False) short) :
    (placeFullscreen fuel (w :: rest)).Ensures s post (fun _ _ => False) short := by
  have live := integrity.live_of_info here
  rw [placeFullscreen, forEach, ensures_bind, ensures_bind, ensures_state, ensures_onlyIf]
  refine ⟨fun _ => ?_, fun dead => absurd live dead⟩
  rw [ensures_bind, ensures_infoFor_here here]
  exact (ensures_placeAndSize_placed integrity (acyclic.rooted w) live _).mono (fun _ => later)
    (fun _ _ h => h) enough

theorem ensures_placeFullscreen_placing (integrity : s.Integrity) (acyclic : s.Acyclic)
    {front back : List Window} (distinct : (front ++ back).Nodup)
    (listed : ∀ v ∈ front, v ∈ s.fullscreenSurfaces) (placing : Placing s (front ++ back) t) :
    (placeFullscreen fuel front).Ensures t (fun _ u => Placing s back u) (fun _ _ => False)
      (s.Short fuel) := by
  induction front generalizing t with
  | nil => exact placing
  | cons w rest ih =>
    obtain ⟨fresh, distinct⟩ := List.nodup_cons.mp distinct
    have full := listed w (by simp)
    obtain ⟨info, here⟩ :=
      integrity.info_of_live (integrity.live_fullscreen full)
    refine ensures_placeFullscreen_cons placing.integrity (placing.acyclic acyclic)
      (placing.info?.trans here) (Short.congr fun v => congrFun placing.parentOf v) fun u placed => ?_
    exact ih distinct (fun v member => listed v (by simp [member]))
      (placing.step integrity acyclic fresh full here placed)

namespace Model

/-- The area of the output a window names, if that output exists. -/
def outputArea (s : Model) (outputs : Int → Option Rectangle) (w : Window) : Option Rectangle :=
  (s.info? w).bind fun info => info.outputId.bind outputs

/-- Every fullscreen window on an output that exists covers it. -/
def FullscreenOn (outputs : Int → Option Rectangle) (s : Model) : Prop :=
  ∀ w ∈ s.fullscreenSurfaces, ∀ area, s.outputArea outputs w = some area → s.rect w = area

/-- An order in which the set of fullscreen windows may be gone through. -/
def Enumerated (s : Model) (order : List Window) : Prop :=
  order.Nodup ∧ ∀ w, w ∈ order ↔ w ∈ s.fullscreenSurfaces

end Model

/-- `place_in_output` puts a rectangle on the output it names, where that exists. -/
def DisplayLayout.PlacesIn (layout : DisplayLayout) (outputs : Int → Option Rectangle) : Prop :=
  ∀ id area rect, outputs id = some area → layout.placeInOutput id rect = some area

/-- A display is added or removed, and the layout changes with it. -/
def Op.displayChange (added : Bool) (area : Rectangle) (layout : DisplayLayout)
    (order : List Window) : Op :=
  if added then .addDisplay area layout order else .removeDisplay area layout order

variable {outputs : Int → Option Rectangle} {area : Rectangle} {order : List Window}

theorem fullscreenRectFor_outputArea (places : s.displayLayout.PlacesIn outputs)
    {info : WindowInfo} (here : s.info? w = some info)
    (on : s.outputArea outputs w = some area) : s.fullscreenRectFor w info = area := by
  rw [outputArea, here, Option.bind_some, Option.bind_eq_some_iff] at on
  obtain ⟨id, named, exists'⟩ := on
  rw [fullscreenRectFor, named, Option.bind_some, places id area _ exists']

/-- Where no fullscreen window moves one below it, every one ends where it was placed. -/
theorem ensures_placeFullscreen_full (integrity : s.Integrity) (acyclic : s.Acyclic)
    (places : s.displayLayout.PlacesIn outputs) (enumerated : s.Enumerated order)
    (guarded : ∀ w ∈ s.fullscreenSurfaces, ∀ area, s.outputArea outputs w = some area →
      s.Guarded w) :
    (placeFullscreen fuel order).Ensures s (fun _ t => FullscreenOn outputs t)
      (fun _ _ => False) (s.Short fuel) := by
  have start : Placing s (order ++ []) s :=
    .start integrity fun w member => by simpa using (enumerated.2 w).mpr member
  refine (ensures_placeFullscreen_placing integrity acyclic (by simpa using enumerated.1)
    (fun w => (enumerated.2 w).mp) start).imp ?_
  intro _ t placing w member area on
  rw [placing.fullscreen] at member
  have on' : s.outputArea outputs w = some area := by rwa [outputArea, placing.info?] at on
  obtain ⟨info, here⟩ := integrity.info_of_live (integrity.live_fullscreen member)
  rw [placing.settled w member (guarded w member area on') (by simp) info here]
  exact fullscreenRectFor_outputArea places here on'

/-- The topmost of the windows that are about to move a window has itself nothing above
it that is about to move. -/
theorem exists_guarded (acyclic : s.Acyclic) {g : Window} (unguarded : ¬s.Guarded g) :
    ∃ a ∈ s.fullscreenSurfaces, Above s.parentOf a g ∧ a ≠ g ∧ ¬s.InPlace a ∧ s.Guarded a := by
  simp only [Guarded, not_forall] at unguarded
  obtain ⟨b, full, above, apart, moves⟩ := unguarded
  obtain ⟨a, above, ⟨full, apart, moves⟩, topmost⟩ := exists_topmost
    (fun a => a ∈ s.fullscreenSurfaces ∧ a ≠ g ∧ ¬s.InPlace a) (acyclic.rooted g)
    ⟨b, above, full, apart, moves⟩
  refine ⟨a, full, above, apart, moves, fun c full' above' ne => ?_⟩
  by_contra moves'
  have other : c ≠ g := by
    rintro rfl
    exact apart (above.antisymm (acyclic.rooted c) above')
  exact ne (topmost c ⟨full', other, moves'⟩ above')

/-- A window on an output is moved off it, if the one that moves it is placed right after. -/
theorem exists_order_unplaced (integrity : s.Integrity) (acyclic : s.Acyclic)
    (places : s.displayLayout.PlacesIn outputs) {g : Window} (member : g ∈ s.fullscreenSurfaces)
    (on : s.outputArea outputs g = some area) (unguarded : ¬s.Guarded g) :
    ∃ order, s.Enumerated order ∧ ∀ fuel, (placeFullscreen fuel order).Ensures s
      (fun _ t => ¬FullscreenOn outputs t) (fun _ _ => False) True := by
  obtain ⟨a, full, above, apart, moves, guarded⟩ := exists_guarded acyclic unguarded
  let others := s.fullscreenSurfaces.dedup.filter fun v => v ≠ g ∧ v ≠ a
  have distinct : (others ++ [g, a]).Nodup := by
    apply List.Nodup.append ((List.nodup_dedup _).filter _) (by simp [Ne.symm apart])
    intro v listed late
    have := (List.mem_filter.mp listed).2
    simp_all
  have listed (v : Window) (mem : v ∈ others) : v ∈ s.fullscreenSurfaces :=
    List.mem_dedup.mp (List.mem_filter.mp mem).1
  have all (v : Window) : v ∈ others ++ [g, a] ↔ v ∈ s.fullscreenSurfaces := by
    by_cases eq : v = g ∨ v = a
    · rcases eq with rfl | rfl <;> simp [member, full]
    · have away := not_or.mp eq
      simp [others, away]
  refine ⟨others ++ [g, a], ⟨distinct, all⟩, fun fuel => ?_⟩
  rw [placeFullscreen, ensures_forEach_append]
  refine (ensures_placeFullscreen_placing integrity acyclic distinct listed
    (.start integrity fun v => (all v).mpr)).mono ?_ (fun _ _ h => h) fun _ => trivial
  intro _ t placing
  obtain ⟨info, here⟩ := integrity.info_of_live (integrity.live_fullscreen member)
  obtain ⟨info', here'⟩ := integrity.info_of_live (integrity.live_fullscreen full)
  refine ensures_placeFullscreen_cons placing.integrity (placing.acyclic acyclic)
    (placing.info?.trans here) (fun _ => trivial) fun u placed => ?_
  have next := placing.step integrity acyclic (by simpa using Ne.symm apart) member here placed
  refine ensures_placeFullscreen_cons next.integrity (next.acyclic acyclic)
    (next.info?.trans here') (fun _ => trivial) fun x placed' => ?_
  intro covers
  have framed : x.info? g = s.info? g := by
    rw [placed'.moved.info?, placed.moved.info?, placing.info?]
  have onX : x.outputArea outputs g = some area := by rwa [outputArea, framed]
  have onT : t.outputArea outputs g = some area := by rwa [outputArea, placing.info?]
  have fullX : g ∈ x.fullscreenSurfaces := by
    rw [placed'.moved.frame, placed.moved.frame, placing.frame]
    exact member
  have first : u.topLeft g = area.topLeft := by
    refine congrArg Rectangle.topLeft (placed.placed.trans (fullscreenRectFor_outputArea ?_
      (placing.info?.trans here) onT))
    rw [placing.frame]
    exact places
  have last : x.topLeft g = area.topLeft :=
    congrArg Rectangle.topLeft (covers g fullX area onX)
  have same : u.rect a = s.rect a := next.waiting a full guarded (by simp)
  apply moves
  intro info'' here''
  obtain rfl := Option.some.inj (here'.symm.trans here'')
  have below : Above u.parentOf a g := by
    rw [next.parentOf]
    exact above
  have carried := placed'.carried g below ((next.live g).mpr (integrity.live_fullscreen member))
  rw [last, first, next.fullscreenRectFor same] at carried
  have moved := Point.add_sub_cancel area.topLeft
    ((s.fullscreenRectFor a info').topLeft - u.topLeft a)
  rw [← carried] at moved
  calc
    (s.fullscreenRectFor a info').topLeft = u.topLeft a :=
      Point.sub_eq_zero.mp (moved.symm.trans (Point.sub_eq_zero.mpr rfl))
    _ = s.topLeft a := congrArg Rectangle.topLeft same

/-- The state in which the fullscreen windows are gone through, once the layout is known. -/
def Model.relaid (s : Model) (layout : DisplayLayout) : Model := { s with displayLayout := layout }

theorem displayChange_run (s : Model) (added : Bool) (area : Rectangle) (layout : DisplayLayout) :
    ∃ displays, ∀ fuel order, (Op.displayChange added area layout order).run fuel s =
      placeFullscreen fuel order { s.swept with displayLayout := layout, displays } := by
  cases added
  · exact ⟨s.displays.erase area, fun _ _ => rfl⟩
  · exact ⟨s.displays ++ [area], fun _ _ => rfl⟩

theorem Model.Integrity.relaid (integrity : s.Integrity) (layout : DisplayLayout)
    (displays : List Rectangle) :
    ({ s.swept with displayLayout := layout, displays } : Model).Integrity := by
  have swept := integrity.swept
  exact ⟨⟨swept.live, swept.children⟩, swept.windows, swept.mru, swept.fullscreen,
    swept.workspaces, swept.retired⟩

/-- The fullscreen windows on an output keep to it, in whatever order they are placed, if and
only if none of them is below a fullscreen window that is about to move. -/
theorem fullscreen_windows_placed (reachable : Reachable (fun s op => op.Contract s) s)
    (acyclic : s.Acyclic) (added : Bool) (area : Rectangle) (layout : DisplayLayout)
    (outputs : Int → Option Rectangle) (places : layout.PlacesIn outputs) :
    (∀ order, s.Enumerated order → ∃ n, ∀ fuel ≥ n, ∃ t,
      (Op.displayChange added area layout order).run fuel s = .returned () t ∧
        FullscreenOn outputs t) ↔
    ∀ w ∈ s.fullscreenSurfaces, s.outputArea outputs w ≠ none → (s.relaid layout).Guarded w := by
  obtain ⟨displays, run⟩ := displayChange_run s added area layout
  have integrity := reachable.integrity.relaid layout displays
  have acyclic' : ({ s.swept with displayLayout := layout, displays } : Model).Acyclic := acyclic
  simp only [run]
  constructor
  · intro placed w member exists'
    by_contra unguarded
    obtain ⟨area', on⟩ := Option.ne_none_iff_exists'.mp exists'
    obtain ⟨order, enumerated, off⟩ :=
      exists_order_unplaced integrity acyclic' places member on unguarded
    obtain ⟨n, returns⟩ := placed order enumerated
    obtain ⟨t, returned, covers⟩ := returns n le_rfl
    exact (off n).returned returned covers
  · intro guarded order enumerated
    obtain ⟨n, enough⟩ := acyclic'.enough
    refine ⟨n, fun fuel le => ?_⟩
    have keeps (w : Window) (member : w ∈ s.fullscreenSurfaces) (area : Rectangle)
        (on : s.outputArea outputs w = some area) : (s.relaid layout).Guarded w :=
      guarded w member (by simp [on])
    obtain ⟨_, u, returned, covers⟩ :=
      (ensures_placeFullscreen_full integrity acyclic' places enumerated keeps).returns
        (enough fuel le)
    exact ⟨u, returned, covers⟩

/-- The layout of some outputs. A window is sized to the one that its corner is on. -/
def DisplayLayout.of (outputs : Int → Option Rectangle) (ids : List Int) : DisplayLayout where
  placeInOutput id _ := outputs id
  sizeToOutput rect :=
    ((ids.filterMap outputs).find? (·.containsPoint rect.topLeft)).getD rect

theorem DisplayLayout.placesIn_of (outputs : Int → Option Rectangle) (ids : List Int) :
    (DisplayLayout.of outputs ids).PlacesIn outputs := fun _ _ _ exists' => exists'

/-- Two outputs, the second of them at the origin. -/
def twoOutputs (first : Point) (id : Int) : Option Rectangle :=
  if id = 1 then some ⟨first, ⟨640, 480⟩⟩ else if id = 2 then some ⟨⟨0, 0⟩, ⟨320, 240⟩⟩ else none

def DisplayLayout.two (first : Point) : DisplayLayout := .of (twoOutputs first) [1, 2]

/-- Both outputs, with the pointer on the first one. -/
def Op.twoDisplays : List Op :=
  [.addDisplay ⟨⟨320, 0⟩, ⟨640, 480⟩⟩ (.two ⟨320, 0⟩) [],
    .addDisplay ⟨⟨0, 0⟩, ⟨320, 240⟩⟩ (.two ⟨320, 0⟩) [], .inputEvent 1 ⟨600, 200⟩]

/-- A window is fullscreen on the first output and its dialog on the second. -/
def Op.nestedRun : List Op := Op.twoDisplays ++
  [.addSession 1, .addSurface 1 { size := ⟨100, 80⟩ } 1,
    .addSurface 1 { size := ⟨30, 20⟩, type := some .dialog, parent := some ⟨1, 1⟩ } 2,
    .modifySurface ⟨1, 1⟩ { outputId := some 1 },
    .modifySurface ⟨1, 1⟩ { state := some .fullscreen },
    .modifySurface ⟨1, 2⟩ { outputId := some 2 },
    .modifySurface ⟨1, 2⟩ { state := some .fullscreen }]

def Model.nestedState : Model :=
  (Op.follow 12 (fun s op => op.Contract s ∧ op.asksParent = false) Op.nestedRun
    (.initial .latest (.two ⟨320, 0⟩))).get (by decide +kernel)

theorem reachable_nestedState :
    Reachable (fun s op => op.Contract s ∧ op.asksParent = false) nestedState :=
  (Reachable.initial _ _).follow (Option.some_get _).symm

theorem acyclic_nestedState : nestedState.Acyclic :=
  reachable_nestedState.acyclic_of_linkless.acyclic.2

theorem fullscreen_windows_placed_nested :
    (∀ order, nestedState.Enumerated order → ∃ n, ∀ fuel ≥ n, ∃ t,
      (Op.displayChange true ⟨⟨0, 240⟩, ⟨320, 240⟩⟩ (.two ⟨320, 0⟩) order).run fuel
        nestedState = .returned () t ∧ FullscreenOn (twoOutputs ⟨320, 0⟩) t) ↔
    ∀ w ∈ nestedState.fullscreenSurfaces,
      nestedState.outputArea (twoOutputs ⟨320, 0⟩) w ≠ none →
        (nestedState.relaid (.two ⟨320, 0⟩)).Guarded w :=
  fullscreen_windows_placed (reachable_nestedState.mono fun _ _ h => h.1) acyclic_nestedState
    true _ _ _ (DisplayLayout.placesIn_of _ _)

/-- The first output moves: the dialog is placed on the second, and then moved along with
the window it belongs to. -/
theorem fullscreen_windows_placed_fails :
    ¬∀ s, Reachable (fun s op => op.Contract s) s → s.Acyclic →
      ∀ added area layout outputs, layout.PlacesIn outputs → ∀ order, s.Enumerated order →
        ∀ fuel t, (Op.displayChange added area layout order).run fuel s = .returned () t →
          FullscreenOn outputs t := by
  intro claim
  let run := (Op.displayChange true ⟨⟨640, 0⟩, ⟨640, 480⟩⟩ (.two ⟨640, 0⟩)
    [⟨1, 2⟩, ⟨1, 1⟩]).run 12 nestedState
  have returned : run.returned?.isSome := by decide +kernel
  obtain ⟨t, ended⟩ := Option.isSome_iff_exists.mp returned
  obtain ⟨_, ended'⟩ := Outcome.returned?_eq_some.mp ended
  have enumerated : nestedState.Enumerated [⟨1, 2⟩, ⟨1, 1⟩] := by
    refine ⟨by decide, fun w => ?_⟩
    rw [show nestedState.fullscreenSurfaces = [⟨1, 1⟩, ⟨1, 2⟩] by decide +kernel]
    simp [or_comm]
  have covers := claim nestedState (reachable_nestedState.mono fun _ _ h => h.1)
    acyclic_nestedState true _ _ _ (DisplayLayout.placesIn_of _ _) _ enumerated 12 t ended'
  have off : run.returned?.any fun t => ⟨1, 2⟩ ∈ t.fullscreenSurfaces ∧
      t.outputArea (twoOutputs ⟨640, 0⟩) ⟨1, 2⟩ = some ⟨⟨0, 0⟩, ⟨320, 240⟩⟩ ∧
      t.rect ⟨1, 2⟩ ≠ ⟨⟨0, 0⟩, ⟨320, 240⟩⟩ := by decide +kernel
  rw [ended, Option.any_some, decide_eq_true_eq] at off
  exact off.2.2 (covers _ off.1 _ off.2.1)

end Miral
