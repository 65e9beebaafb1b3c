import Miral.HiddenRequests
import Miral.SwitchFocus

/-! Where windows are put while a workspace is switched to. A window that is hidden stays where
it is; one that is shown goes to where its state would put it from there, and takes the windows
below it along. -/
namespace Miral

open Program Prog Forest Model

namespace Shell

variable {s t u : Shell} {w v : Window} {hidden : Bool} {ws : List Window} {info : WindowInfo}

/-- Where a window goes that stands at `rect` when its workspace is shown. -/
def shownAt (s : Shell) (w : Window) (rect : Rectangle) : Rectangle :=
  match s.manager.info? w with
  | some info => s.manager.rectAt w info rect rect (s.ownState w info)
  | none => rect

/-- The window stays where it is when its workspace is shown. -/
def InPlace (s : Shell) (w : Window) : Prop :=
  s.shownAt w (s.manager.rect w) = s.manager.rect w

/-- The record of a window, whatever it is called, after others or itself have been shown or
hidden. -/
theorem Visited.record (visited : Visited hidden w s u) (plain : ¬s.IsDecoration v)
    (here : s.manager.info? v = some info) : ∃ info', u.manager.info? v = some info' ∧
      info'.outputId = info.outputId ∧ u.ownState v info' = s.ownState v info := by
  cases visited with
  | already => exact ⟨info, here, rfl, rfl⟩
  | @changed current t known flag placed =>
    by_cases eq : v = w
    · subst eq
      obtain rfl := Option.some.inj (here.symm.trans known)
      obtain ⟨rect, cached⟩ := cachedInfo_eq s.manager v info (some (s.stateUnder v hidden))
      refine ⟨_, placed.record, by rw [cached], ?_⟩
      cases hidden <;> simp [ownState, setPolicyData, setManager, dataUnder, stateUnder, flag]
    · refine ⟨info, (placed.infos v eq plain).trans here, rfl, ?_⟩
      simp [ownState, setPolicyData, setManager, eq]

theorem shownAt_eq (here : s.manager.info? w = some info) (rect : Rectangle) :
    s.shownAt w rect = s.manager.rectAt w info rect rect (s.ownState w info) := by
  rw [shownAt, here]

theorem Visited.shownAt (visited : Visited hidden w s u) (sound : s.Sound)
    (managed : s.manager.Managed v) (plain : ¬s.IsDecoration v) (rect : Rectangle) :
    u.shownAt v rect = s.shownAt v rect := by
  obtain ⟨info, here⟩ := managed_iff.mp managed
  obtain ⟨info', there, output, own⟩ := visited.record plain here
  have steady := visited.steady
  have live := (sound.furnished.coherent.integrity.live v).mpr managed
  have live' := ((visited.sound sound).furnished.coherent.integrity.live v).mpr
    (steady.managed.mpr managed)
  rw [shownAt_eq here, shownAt_eq there, own]
  exact rectAt_congr steady.displays steady.displayLayout live live' output

theorem Visited.rect_still (visited : Visited hidden w s u) (sound : s.Sound)
    (concealed : s.Concealed) (plain : ¬s.IsDecoration w) (other : ¬s.IsDecoration v)
    (calm : hidden = true ∨ s.InPlace w) : u.manager.rect v = s.manager.rect v := by
  cases visited with
  | already => rfl
  | @changed info t here flag placed =>
    refine placed.still ?_ v other
    cases hidden with
    | true =>
      unfold stateRect
      split
      · rfl
      · rfl
    | false =>
      have flagged : (s.policyData w).inHiddenWorkspace := by simpa using flag
      have inPlace := calm.resolve_left (by simp)
      rw [InPlace, shownAt_eq here, ownState, if_pos flagged] at inPlace
      rw [stateRect_hidden sound.furnished.coherent.integrity here
        (concealed w info here plain flagged)]
      exact inPlace

theorem Visited.rect_outside (visited : Visited hidden w s u) (other : ¬s.IsDecoration v)
    (apart : ¬Above s.manager.parentOf w v) : u.manager.rect v = s.manager.rect v := by
  cases visited with
  | already => rfl
  | changed _ _ placed => exact placed.outside v other apart

theorem Visited.rect_shown (visited : Visited false w s u) (sound : s.Sound)
    (concealed : s.Concealed) (plain : ¬s.IsDecoration w) : u.manager.rect w =
      if (s.policyData w).inHiddenWorkspace then s.shownAt w (s.manager.rect w)
      else s.manager.rect w := by
  cases visited with
  | already flag => rw [flag]; rfl
  | @changed info t here flag placed =>
    have flagged : (s.policyData w).inHiddenWorkspace := by simpa using flag
    rw [if_pos flagged, shownAt_eq here, ownState, if_pos flagged]
    exact placed.rect.trans (stateRect_hidden sound.furnished.coherent.integrity here
      (concealed w info here plain flagged))

theorem hidden_rects (steps : Steps (Visited true) ws s u) (sound : s.Sound)
    (concealed : s.Concealed) (plain : ∀ w ∈ ws, ¬s.IsDecoration w) (other : ¬s.IsDecoration v) :
    u.manager.rect v = s.manager.rect v := by
  induction steps with
  | nil => rfl
  | cons visited _ ih =>
    have same := visited.steady.isDecoration (v := v)
    refine (ih (visited.sound sound) (visited.concealed concealed) (fun w member h => plain w
      (List.mem_cons_of_mem _ member) (visited.steady.isDecoration.mp h)) (mt same.mp other)).trans ?_
    exact visited.rect_still sound concealed (plain _ (by simp)) other (.inl rfl)

/-- A window whose ancestors are in their places, as far as they are shown, moves only when it is
shown itself. -/
theorem shown_rects (calm : Window → Prop) (steps : Steps (Visited false) ws s u) (sound : s.Sound)
    (concealed : s.Concealed) (known : ∀ w ∈ ws, s.manager.Managed w ∧ ¬s.IsDecoration w)
    (other : ¬s.IsDecoration v) (managed : s.manager.Managed v)
    (up : ∀ x y, calm y → Above s.manager.parentOf x y → calm x)
    (inPlace : ∀ w ∈ ws, calm w → s.InPlace w)
    (below : ∀ x, Above s.manager.parentOf x v → x = v ∨ calm x) :
    u.manager.rect v = if v ∈ ws ∧ (s.policyData v).inHiddenWorkspace
      then s.shownAt v (s.manager.rect v) else s.manager.rect v := by
  induction steps with
  | nil => simp
  | @cons w rest s t u visited steps ih =>
    obtain ⟨managed_w, plain_w⟩ := known w (by simp)
    have steady := visited.steady
    -- Calm windows are not moved by this step, whether or not it is about one of them.
    have calm_rect (x : Window) (plain : ¬s.IsDecoration x) (is : calm x) :
        t.manager.rect x = s.manager.rect x := by
      by_cases above : Above s.manager.parentOf w x
      · exact visited.rect_still sound concealed plain_w plain
          (.inr (inPlace w (by simp) (up w x is above)))
      · exact visited.rect_outside plain above
    have later := ih (visited.sound sound) (visited.concealed concealed)
      (fun x member => by
        rw [steady.managed, steady.isDecoration]
        exact known x (List.mem_cons_of_mem w member))
      (mt steady.isDecoration.mp other) (steady.managed.mpr managed)
      (by rw [steady.parentOf]; exact up)
      (fun x member is => by
        obtain ⟨managed, plain⟩ := known x (List.mem_cons_of_mem w member)
        rw [InPlace, calm_rect x plain is, visited.shownAt sound managed plain]
        exact inPlace x (List.mem_cons_of_mem w member) is)
      (by rw [steady.parentOf]; exact below)
    rw [visited.shownAt sound managed other] at later
    by_cases eq : v = w
    · subst eq
      rw [later, visited.flag, visited.rect_shown sound concealed plain_w]
      simp
    · have still : t.manager.rect v = s.manager.rect v := by
        by_cases above : Above s.manager.parentOf w v
        · exact visited.rect_still sound concealed plain_w other
            (.inr (inPlace w (by simp) ((below w above).resolve_left (Ne.symm eq))))
        · exact visited.rect_outside other above
      rw [later, still, visited.policyData eq]
      simp [eq]

theorem still_rects (steps : Steps (Visited hidden) ws s u) (sound : s.Sound)
    (concealed : s.Concealed) (known : ∀ w ∈ ws, s.manager.Managed w ∧ ¬s.IsDecoration w)
    (calm : hidden = true ∨ ∀ w ∈ ws, s.InPlace w) (managed : s.manager.Managed v)
    (other : ¬s.IsDecoration v) : u.manager.rect v = s.manager.rect v := by
  cases hidden with
  | true => exact hidden_rects steps sound concealed (fun w member => (known w member).2) other
  | false =>
    have inPlace := calm.resolve_left (by simp)
    rw [shown_rects (fun _ => True) steps sound concealed known other managed
      (fun _ _ _ _ => trivial) (fun w member _ => inPlace w member) fun _ _ => .inr trivial]
    split
    · rename_i shown
      exact inPlace v shown.1
    · rfl

def visitedInfo (s : Shell) (w : Window) (info : WindowInfo) (hidden : Bool) : WindowInfo :=
  { s.manager.cachedInfo w info (some (s.stateUnder w hidden)) with state := s.stateUnder w hidden }

theorem visitedInfo_congr (rect : t.manager.rect w = s.manager.rect w)
    (data : t.policyData w = s.policyData w) : t.visitedInfo w info hidden =
      s.visitedInfo w info hidden := by
  have state : t.stateUnder w hidden = s.stateUnder w hidden := by
    cases hidden with
    | true => rfl
    | false => rw [stateUnder, stateUnder, data]
  rw [visitedInfo, visitedInfo, state, cachedInfo, cachedInfo, rect]

theorem passed_steps (steps : Steps (Visited hidden) ws s u) (other : ¬s.IsDecoration v)
    (passed : v ∈ ws → (s.policyData v).inHiddenWorkspace = hidden) :
    u.manager.info? v = s.manager.info? v ∧ u.policyData v = s.policyData v := by
  induction steps with
  | nil => exact ⟨rfl, rfl⟩
  | @cons w rest s t u visited _ ih =>
    have same : t.manager.info? v = s.manager.info? v ∧ t.policyData v = s.policyData v := by
      by_cases eq : v = w
      · subst eq
        have flag := passed (by simp)
        cases visited with
        | already => exact ⟨rfl, rfl⟩
        | changed _ differs => simp [flag] at differs
      · exact ⟨visited.infos eq other, visited.policyData eq⟩
    have later := ih (mt visited.steady.isDecoration.mp other) fun member => by
      rw [same.2]
      exact passed (List.mem_cons_of_mem w member)
    exact ⟨later.1.trans same.1, later.2.trans same.2⟩

/-- A window is shown or hidden once, at the first time it is come to. -/
theorem visited_steps (steps : Steps (Visited hidden) ws s u) (sound : s.Sound)
    (concealed : s.Concealed) (known : ∀ w ∈ ws, s.manager.Managed w ∧ ¬s.IsDecoration w)
    (calm : hidden = true ∨ ∀ w ∈ ws, s.InPlace w) (member : v ∈ ws)
    (flag : (s.policyData v).inHiddenWorkspace = !hidden) (here : s.manager.info? v = some info) :
    u.manager.info? v = some (s.visitedInfo v info hidden) ∧
      u.policyData v = s.dataUnder v info hidden := by
  obtain ⟨pre, post, rfl, fresh⟩ := List.eq_append_cons_of_mem member
  obtain ⟨managed, plain⟩ := known v member
  obtain ⟨t, before, steps⟩ := steps_append.mp steps
  obtain _ | @⟨_, _, _, t', _, visited, after⟩ := steps
  have same := passed_steps before plain fun early => absurd early fresh
  have rect : t.manager.rect v = s.manager.rect v := still_rects before sound concealed
    (fun w early => known w (List.mem_append_left _ early))
    (calm.imp_right fun inPlace w early => inPlace w (List.mem_append_left _ early)) managed plain
  have steady := steady_steps before
  have later := passed_steps after (mt (visited.steady.isDecoration.mp) (mt steady.isDecoration.mp
    plain)) fun _ => visited.flag
  rw [later.1, later.2, ← visitedInfo_congr rect same.2]
  cases visited with
  | already flag' =>
    rw [same.2, flag] at flag'
    cases hidden <;> contradiction
  | @changed info' m there _ placed =>
    obtain rfl := Option.some.inj (there.symm.trans (same.1.trans here))
    refine ⟨placed.record, ?_⟩
    have data : t.dataUnder v info' hidden = s.dataUnder v info' hidden := by
      cases hidden with
      | true => rfl
      | false => rw [dataUnder, dataUnder, same.2]
    simp [setManager, setPolicyData, data]

theorem steps_still {α : Type} {f : Shell → α} (steps : Steps (Visited hidden) ws s u)
    (sound : s.Sound) (each : ∀ t u w, Steady s t → t.Sound → Visited hidden w t u → f u = f t) :
    f u = f s := by
  suffices still : ∀ t, Steady s t → t.Sound → Steps (Visited hidden) ws t u → f u = f t from
    still s .refl sound steps
  clear steps
  intro t steady sound steps
  induction steps with
  | nil => rfl
  | cons visited _ ih =>
    exact (ih (steady.trans visited.steady) (visited.sound sound)).trans
      (each _ _ _ steady sound visited)

theorem shownAt_steps (steps : Steps (Visited hidden) ws s u) (sound : s.Sound)
    (managed : s.manager.Managed v) (plain : ¬s.IsDecoration v) (rect : Rectangle) :
    u.shownAt v rect = s.shownAt v rect :=
  steps_still (f := fun t => t.shownAt v rect) steps sound fun _ _ _ steady sound visited =>
    visited.shownAt sound (steady.managed.mpr managed) (mt steady.isDecoration.mp plain) rect

end Shell

end Miral
