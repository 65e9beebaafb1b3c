import Miral.Desk
import Miral.RaiseTree

/-! The window under the pointer: of those that are seen there, the one on top. What raising a
window does to the stacking order keeps it there. -/
namespace Miral

open Program Prog Forest Stacking Model

/-- What a report makes of the stacking order: a new window is on top of the others. -/
def Event.stack (z : List Window) : Event → List Window
  | .adviseNewWindow window => Stacking.place window z
  | event => event.restack z

namespace Model

/-- The windows from the bottom to the top, as they have been created and raised. -/
def stacking (s : Model) : List Window := s.log.foldl Event.stack []

def seenAt (s : Model) (cursor : Point) (w : Window) : Bool :=
  s.visible w && (s.rect w).containsPoint cursor

def pointedAt (s : Model) (cursor : Point) : Option Window :=
  Stacking.highest s.stacking (s.seenAt cursor)

end Model

/-- Mir finds the topmost window at a point. -/
def Surroundings.Topmost (around : Surroundings) : Prop :=
  ∀ s cursor, around.surfaceAt s cursor = s.pointedAt cursor

/-- Surroundings in which that is so. -/
def Surroundings.topmost : Surroundings := ⟨Model.pointedAt, "wallpaper"⟩

theorem Rectangle.containsPoint_add {p q : Point} {size : Size} {d : Displacement} :
    (⟨p + d, size⟩ : Rectangle).containsPoint (q + d) = (⟨p, size⟩ : Rectangle).containsPoint q := by
  simp only [containsPoint, left, right, top, bottom, Point.add_x, Point.add_y]
  split
  · rfl
  · rw [Bool.eq_iff_iff]
    simp only [Bool.and_eq_true]
    grind

section Stack

variable {s t : Model} {w : Window} {events : List Event} {groups : List (List Window)}

theorem Event.nodup_stack {z : List Window} (nodup : z.Nodup) (event : Event) :
    (event.stack z).Nodup := by
  cases event with
  | adviseNewWindow => exact nodup_place nodup
  | raise => exact nodup_raise nodup
  | _ => exact nodup

theorem Model.nodup_stacking : s.stacking.Nodup := by
  suffices kept : ∀ (events : List Event) (z : List Window), z.Nodup →
      (events.foldl Event.stack z).Nodup from kept s.log [] List.nodup_nil
  intro events
  induction events with
  | nil => exact fun _ nodup => nodup
  | cons event rest ih => exact fun z nodup => ih _ (event.nodup_stack nodup)

theorem Model.stacking_append (log : t.log = s.log ++ events) :
    t.stacking = events.foldl Event.stack s.stacking := by
  rw [stacking, log, List.foldl_append, stacking]

theorem stack_raises (groups : List (List Window)) (z : List Window) :
    (raises groups).foldl Event.stack z =
      groups.foldl (fun z group => Stacking.raise group z) z := by
  induction groups generalizing z with
  | nil => rfl
  | cons group rest ih => exact ih (Stacking.raise group z)

end Stack

section Raised

variable {s t : Model} {w : Window} {fuel : Nat}

theorem Model.Picks.beneath {r : Option Window} (integrity : s.Integrity) (picks : s.Picks w r)
    {info : WindowInfo} (here : s.info? w = some info) (dialog : info.type = .dialog)
    (seen : s.isVisible w info) : ∀ x, r = some x → Above s.parentOf w x := by
  induction picks generalizing info with
  | dialog here' found _ ih =>
    rintro x rfl
    obtain ⟨member, childInfo, there, childDialog, childSeen⟩ := firstDialog_spec found
    have link := (integrity.mem_children here').mp member
    exact (Above.link link .refl).trans (ih there childDialog childSeen x rfl)
  | itself =>
    rintro x ⟨rfl⟩
    exact .refl
  | parent here' _ refused =>
    obtain rfl := Option.some.inj (here'.symm.trans here)
    exact absurd ⟨by simp [dialog, WindowType.canBeActive], seen⟩ refused
  | nothing here' _ refused =>
    obtain rfl := Option.some.inj (here'.symm.trans here)
    exact absurd ⟨by simp [dialog, WindowType.canBeActive], seen⟩ refused

theorem Model.Picks.own (integrity : s.Integrity) (acyclic : s.Acyclic)
    (picks : s.Picks w (some w)) : ∃ info, s.info? w = some info ∧
      s.firstDialog info.children = none ∧ info.type.canBeActive ∧ s.isVisible w info := by
  obtain ⟨info, here, active, seen⟩ := picks.focusable w rfl
  refine ⟨info, here, ?_, active, seen⟩
  cases picks with
  | dialog here' found rest =>
    obtain ⟨member, childInfo, there, dialog, childSeen⟩ := firstDialog_spec found
    have link := (integrity.mem_children here').mp member
    have rooted := (rooted_link link).mpr (acyclic w (managed_iff.mpr ⟨info, here⟩))
    exact absurd (rest.beneath integrity there dialog childSeen w rfl)
      (rooted.not_above_parent link)
  | itself here' alone =>
    obtain rfl := Option.some.inj (here'.symm.trans here)
    exact alone
  | parent here' alone =>
    obtain rfl := Option.some.inj (here'.symm.trans here)
    exact alone

/-- Selecting a window raises its tree. -/
theorem ensures_select_raised (integrity : s.Integrity) (acyclic : s.Acyclic)
    (picks : s.Picks w (some w)) :
    (selectActiveWindow fuel (some w)).Ensures s
      (fun _ t => ∃ groups, Ascent s.parentOf w groups ∧ t = s.focusOn w (raises groups))
      (fun _ _ => False) True := by
  obtain ⟨info, here, alone, active, seen⟩ := picks.own integrity acyclic
  have managed : s.Managed w := managed_iff.mpr ⟨info, here⟩
  cases fuel with
  | zero => trivial
  | succ fuel =>
    rw [selectActiveWindow, ensures_bind, ensures_state,
      lock_some (integrity.live_of_info here), ensures_bind, ensures_infoFor_here here]
    refine (ensures_visibleDialog info.children fun c member =>
      integrity.managed_child here member).bind ?_
    rintro dialog t ⟨rfl, rfl⟩
    rw [alone]
    dsimp only
    rw [if_pos ⟨active, seen⟩]
    refine (ensures_focus
      (fun raised => ∃ groups, Ascent t.parentOf w groups ∧ raised = raises groups)
      integrity managed fun u integrity' same => ?_).imp ?_
    · have parents : u.parentOf = t.parentOf := by
        funext v
        rw [parentOf, info?, same, ← info?, ← parentOf]
      have known (v : Window) : u.Managed v ↔ t.Managed v := by
        rw [Managed, info?, same, ← info?, ← Managed]
      have acyclic' : u.Acyclic := fun v there => parents ▸ acyclic v ((known v).mp there)
      refine (ensures_raiseTree_ascent integrity' acyclic' ((known w).mpr managed)).imp ?_
      rintro _ v ⟨groups, ascent, rfl⟩
      exact ⟨raises groups, ⟨groups, parents ▸ ascent, rfl⟩, rfl⟩
    · rintro _ u ⟨-, raised, ⟨groups, ascent, rfl⟩, rfl⟩
      exact ⟨groups, ascent, rfl⟩

theorem Model.stacking_focusOn {groups : List (List Window)} :
    (s.focusOn w (raises groups)).stacking =
      groups.foldl (fun z group => Stacking.raise group z) s.stacking := by
  have quiet : (s.lostTo w).foldl Event.stack s.stacking = s.stacking := by
    unfold lostTo
    split
    · split <;> rfl
    · rfl
  rw [stacking_append rfl, List.foldl_append, List.foldl_cons, List.foldl_cons, stack_raises]
  change List.foldl _ (List.foldl Event.stack s.stacking (s.lostTo w)) groups = _
  rw [quiet]

end Raised

end Miral
