import Miral.Cycling
import Miral.Library.Lap

/-! Cycling through the windows of an application none of which is special: forwards and
backwards are the two rotations of its list of windows. -/
namespace Miral

open Program Prog Forest Model

namespace Model

variable {s t : Model} {a : Application} {prev w : Window}

/-- The windows of an application can all get the focus, have neither parents nor children,
and are all in no workspace or all in the same one. -/
structure Rotatable (s : Model) (a : Application) : Prop where
  roots : ∀ w ∈ s.windowsOf a, s.parentOf w = none
  leaves : ∀ w ∈ s.windowsOf a, s.childrenOf w = []
  focusable : ∀ w ∈ s.windowsOf a, s.Focusable w
  together : (∀ w ∈ s.windowsOf a, s.workspacesContaining w = []) ∨
    ∃ k, ∀ w ∈ s.windowsOf a, s.workspacesContaining w = [k]

theorem Integrity.windowsOf_nodup (integrity : s.Integrity) : (s.windowsOf a).Nodup := by
  rw [List.nodup_iff_count_le_one]
  intro w
  rw [integrity.windows]
  split <;> simp

/-- Only the focus has moved. -/
structure Refocused (s t : Model) : Prop where
  frame : t = { s with
    mruActiveWindows := t.mruActiveWindows, focus := t.focus, log := t.log }
  integrity : t.Integrity

theorem Refocused.refl (integrity : s.Integrity) : Refocused s s := ⟨rfl, integrity⟩

theorem focusClosed_refocused (s : Model) : FocusClosed fun t => Refocused s t where
  integrity t moved := moved.integrity
  selected t x raised moved focusable _ := by
    refine ⟨?_, moved.integrity.focusOn focusable.managed⟩
    rw [focusOn, moved.frame]
  next t moved := by
    refine ⟨?_, moved.integrity.sameStructure sameStructure_nextFocus moved.integrity.mru⟩
    rw [nextFocus, moved.frame]
    rfl

namespace Refocused

variable (moved : Refocused s t)

include moved

theorem synced (synced : s.Synced) : t.Synced := by
  rw [moved.frame]
  exact synced

theorem windowsOf : t.windowsOf a = s.windowsOf a := by
  rw [moved.frame]
  rfl

theorem rotatable (rotatable : s.Rotatable a) : t.Rotatable a := by
  rw [moved.frame]
  exact ⟨rotatable.roots, rotatable.leaves, rotatable.focusable, rotatable.together⟩

end Refocused

namespace Rotatable

variable (rotatable : s.Rotatable a)

include rotatable

theorem picks (listed : w ∈ s.windowsOf a) : s.Picks w (some w) := by
  obtain ⟨info, here, active, seen⟩ := rotatable.focusable w listed
  have childless : info.children = [] := by
    rw [← childrenOf_eq here]
    exact rotatable.leaves w listed
  exact .itself here (by rw [childless]; rfl) active seen

theorem shares (listed : prev ∈ s.windowsOf a) :
    (∀ w ∈ s.windowsOf a, s.sharesWorkspace w (s.workspacesContaining prev) = true) ∨
      ∀ w ∈ s.windowsOf a, s.sharesWorkspace w (s.workspacesContaining prev) = false := by
  rcases rotatable.together with none | ⟨k, one⟩
  · refine .inr fun w member => ?_
    rw [Bool.eq_false_iff, ne_eq, sharesWorkspace_iff, none w member]
    simp
  · refine .inl fun w member => ?_
    rw [sharesWorkspace_iff, one w member, one prev listed]
    simp

theorem headD_siblingsTried {order : List Window → List Window} (part : ∀ ws, order ws ⊆ ws)
    (listed : prev ∈ order (s.windowsOf a)) (nodup : (order (s.windowsOf a)).Nodup)
    (own : prev.application = a) :
    (s.siblingsTried prev order).headD prev = (order (s.windowsOf a)).next prev listed := by
  subst own
  unfold siblingsTried
  rw [Lap.headD_filter_append, Lap.headD_eq_next nodup listed]
  have sibling (w : Window) (member : w ∈
      ((order (s.windowsOf prev.application)).dropWhile (· ≠ prev)).tail ++
        (order (s.windowsOf prev.application)).takeWhile (· ≠ prev)) :
      w ∈ s.windowsOf prev.application := by
    rcases List.mem_append.mp member with after | before
    · exact part _ (List.dropWhile_subset _ (List.mem_of_mem_tail after))
    · exact part _ (List.takeWhile_subset _ before)
  exact (rotatable.shares (part _ listed)).imp (fun all w member => all w (sibling w member))
    fun none w member => none w (sibling w member)

theorem ended {ws : List Window} (inside : ∀ w ∈ ws, w ∈ s.windowsOf a ∧ w ≠ prev)
    (ended : s.Ended prev ws t) : t.activeWindow = some (ws.headD prev) := by
  obtain ⟨result, first, active⟩ := ended
  rw [active]
  cases ws with
  | nil =>
    cases first
    rfl
  | cons w rest =>
    obtain ⟨listed, other⟩ := inside w List.mem_cons_self
    have stops : s.FirstElse prev (w :: rest) (some (some w)) :=
      .stops (rotatable.picks listed) (by simpa using other)
    rw [first.det stops]
    rfl

end Rotatable

theorem of_mem_siblingsTried {order : List Window → List Window} (part : ∀ ws, order ws ⊆ ws)
    (nodup : (order (s.windowsOf prev.application)).Nodup)
    (tried : w ∈ s.siblingsTried prev order) : w ∈ s.windowsOf prev.application ∧ w ≠ prev := by
  have sibling : w ∈ ((order (s.windowsOf prev.application)).dropWhile (· ≠ prev)).tail ++
      (order (s.windowsOf prev.application)).takeWhile (· ≠ prev) := by
    simp only [siblingsTried, List.mem_append, List.mem_filter] at tried
    rw [List.mem_append]
    tauto
  obtain ⟨listed, other⟩ := Lap.mem_around nodup sibling
  exact ⟨part _ listed, other⟩

end Model

variable {s t : Model} {w prev : Window} {fuel : Nat}

theorem ensures_raiseTree_alone {info : WindowInfo} (here : s.info? w = some info)
    (root : info.parent = none) (leaf : info.children = []) {error : Failure → Model → Prop}
    {short : Prop} :
    (raiseTree (fuel + 2) w).Ensures s (fun _ _ => True) error short := by
  rw [raiseTree, ensures_bind, ensures_infoFor_here here, ensures_bind, ensures_state, root]
  simp only [lock, whenSome, ensures_bind, ensures_pure, descendants,
    ensures_infoFor_here here, leaf, collect, ensures_emit]

/-- Selecting a window that nothing is linked to takes little fuel. -/
theorem selects_alone (integrity : s.Integrity) (roots : s.parentOf w = none)
    (leaves : s.childrenOf w = []) (managed : s.Managed w) :
    s.Selects prev fuel (fuel < 3) w := by
  intro t revisited
  have live := (integrity.live w).mpr managed
  suffices ends : (selectActiveWindow fuel (some w)).Ensures t (fun _ _ => True)
      (fun _ _ => True) (fuel < 3) from
    ((ensures_selectActiveWindow revisited.integrity
      ((revisited.alike.live w).mp live)).unbounded.and ends).mono
      (fun _ _ h => h.1) (fun _ _ h => h.1) And.right
  by_cases enough : fuel < 3
  · exact ensures_always (fun _ _ => trivial) (fun _ _ => trivial) enough
  obtain ⟨fuel, rfl⟩ := Nat.exists_eq_add_of_le' (Nat.le_of_not_lt enough)
  obtain ⟨info, here⟩ := managed_iff.mp managed
  have there : t.info? w = some info := by
    rw [revisited.frame]
    exact here
  have root : info.parent = none := (parentOf_eq here).symm.trans roots
  have leaf : info.children = [] := (childrenOf_eq here).symm.trans leaves
  rw [selectActiveWindow, ensures_bind, ensures_state,
    lock_some ((revisited.alike.live w).mp live)]
  dsimp only
  rw [ensures_bind, ensures_infoFor_here there, leaf, visibleDialog, ensures_bind, ensures_pure]
  dsimp only
  rw [ensures_ite]
  constructor
  · intro _
    rw [ensures_bind, ensures_update, ensures_bind, setFocusTo, ensures_update, ensures_bind,
      ensures_whenSome]
    have raise (u : Model) (same : u.info? w = some info) :
        Ensures (do
          adviseFocusGained (fuel + 2) w
          pure (some w)) u (fun _ _ => True) (fun _ _ => True) (fuel + 3 < 3) := by
      rw [adviseFocusGained, ensures_bind, ensures_bind, ensures_emit]
      exact (ensures_raiseTree_alone (s := u.emit (.adviseFocusGained w)) same root leaf).mono
        (fun _ _ _ => trivial) (fun _ _ h => h) id
    constructor
    · intro prev _
      rw [ensures_onlyIf, adviseFocusLost, ensures_bind, ensures_infoFor]
      constructor
      · intro _
        constructor
        · intro _ _
          exact raise _ there
        · intro _
          trivial
      · intro _
        exact raise _ there
    · intro _
      exact raise _ there
  · intro _
    rw [root]
    trivial

/-- One step of the cycle, in either direction. -/
theorem ensures_rotate (integrity : s.Integrity) (synced : s.Synced)
    (active : s.activeWindow = some prev) (rotatable : s.Rotatable prev.application)
    {order : List Window → List Window} (perm : ∀ ws, (order ws).Perm ws)
    (listed : prev ∈ order (s.windowsOf prev.application)) :
    (focusSibling fuel order).Ensures s
      (fun _ t => Refocused s t ∧
        t.activeWindow = some ((order (s.windowsOf prev.application)).next prev listed))
      (fun _ _ => False) (fuel < 3) := by
  have part (ws : List Window) : order ws ⊆ ws := (perm ws).subset
  have nodup : (order (s.windowsOf prev.application)).Nodup :=
    (perm _).nodup_iff.mpr integrity.windowsOf_nodup
  have selects (w : Window) (listed : w ∈ s.windowsOf prev.application) :
      s.Selects prev fuel (fuel < 3) w :=
    selects_alone integrity (rotatable.roots w listed) (rotatable.leaves w listed)
      (integrity.mem_windowsOf.mp listed).1
  have ends := ensures_focusSibling_of integrity synced active order part selects
  have framed : (focusSibling fuel order).Ensures s (fun _ t => Refocused s t)
      (fun _ _ => False) True :=
    (focusClosed_refocused s).focusSibling order part (.refl integrity)
  refine (ends.and framed).mono ?_ (fun _ _ h => h.1) And.left
  intro _ t after
  rcases after with ⟨ended, moved⟩
  refine ⟨moved, ?_⟩
  rw [rotatable.ended (fun w tried => of_mem_siblingsTried part nodup tried) ended,
    rotatable.headD_siblingsTried part listed nodup rfl]

/-- Some calls one after the other, with the windows that are active after each. -/
inductive Turns (step : Nat → Manager Unit) : Model → List Window → Model → Prop where
  | nil (s : Model) : Turns step s [] s
  | cons {s t u : Model} {fuel : Nat} {w : Window} {ws : List Window} :
      step fuel s = .returned () t → t.activeWindow = some w → Turns step t ws u →
      Turns step s (w :: ws) u

namespace Model

/-- A window of an application whose windows can be rotated has the focus. -/
structure Rotating (s : Model) (prev : Window) : Prop where
  integrity : s.Integrity
  synced : s.Synced
  active : s.activeWindow = some prev
  rotatable : s.Rotatable prev.application

namespace Rotating

variable (rotating : s.Rotating prev)

include rotating

theorem listed : prev ∈ s.windowsOf prev.application :=
  rotating.integrity.mem_windowsOf.mpr
    ⟨rotating.integrity.managed_active rotating.active, rfl⟩

theorem refocused (moved : Refocused s t) (active : t.activeWindow = some w)
    (listed : w ∈ s.windowsOf prev.application) :
    t.Rotating w ∧ t.windowsOf w.application = s.windowsOf prev.application := by
  have own : w.application = prev.application := (rotating.integrity.mem_windowsOf.mp listed).2
  rw [own]
  exact ⟨⟨moved.integrity, moved.synced rotating.synced, active,
    own ▸ moved.rotatable rotating.rotatable⟩, moved.windowsOf⟩

theorem ensures_next : (focusNextWithinApplication fuel).Ensures s
    (fun _ t => Refocused s t ∧ t.activeWindow =
      some ((s.windowsOf prev.application).next prev rotating.listed))
    (fun _ _ => False) (fuel < 3) :=
  ensures_rotate rotating.integrity rotating.synced rotating.active rotating.rotatable
    (fun ws => .refl ws) rotating.listed

theorem ensures_prev : (focusPrevWithinApplication fuel).Ensures s
    (fun _ t => Refocused s t ∧ t.activeWindow =
      some ((s.windowsOf prev.application).prev prev rotating.listed))
    (fun _ _ => False) (fuel < 3) := by
  rw [← List.next_reverse_eq_prev _ rotating.integrity.windowsOf_nodup]
  exact ensures_rotate rotating.integrity rotating.synced rotating.active rotating.rotatable
    List.reverse_perm (List.mem_reverse.mpr rotating.listed)

theorem returns_next (enough : 3 ≤ fuel) : ∃ t, focusNextWithinApplication fuel s = .returned () t ∧
    Refocused s t ∧
      t.activeWindow = some ((s.windowsOf prev.application).next prev rotating.listed) := by
  obtain ⟨_, t, run, moved⟩ := rotating.ensures_next.returns (Nat.not_lt.mpr enough)
  exact ⟨t, run, moved⟩

theorem returns_prev (enough : 3 ≤ fuel) : ∃ t, focusPrevWithinApplication fuel s = .returned () t ∧
    Refocused s t ∧
      t.activeWindow = some ((s.windowsOf prev.application).prev prev rotating.listed) := by
  obtain ⟨_, t, run, moved⟩ := rotating.ensures_prev.returns (Nat.not_lt.mpr enough)
  exact ⟨t, run, moved⟩

theorem next {i : Nat} (here : (s.windowsOf prev.application)[i]? = some prev)
    (run : focusNextWithinApplication fuel s = .returned () t) (active : t.activeWindow = some w) :
    t.Rotating w ∧ t.windowsOf w.application = s.windowsOf prev.application ∧
      (s.windowsOf prev.application)[(i + 1) % (s.windowsOf prev.application).length]? = some w := by
  obtain ⟨moved, now⟩ := rotating.ensures_next.returned run
  obtain rfl := Option.some.inj (active.symm.trans now)
  obtain ⟨after, same⟩ := rotating.refocused moved now (List.next_mem ..)
  exact ⟨after, same, Lap.getElem?_next rotating.integrity.windowsOf_nodup here rotating.listed⟩

end Rotating

/-- A run of forward steps goes through the windows in their order. -/
theorem Rotating.turns {ws : List Window} {i : Nat} (rotating : s.Rotating prev)
    (turns : Turns focusNextWithinApplication s ws t)
    (here : (s.windowsOf prev.application)[i]? = some prev) :
    (∀ j < ws.length, ws[j]? = (s.windowsOf prev.application)[
      (i + 1 + j) % (s.windowsOf prev.application).length]?) ∧
    t.activeWindow = (s.windowsOf prev.application)[
      (i + ws.length) % (s.windowsOf prev.application).length]? := by
  induction turns generalizing prev i with
  | nil =>
    obtain ⟨inside, -⟩ := List.getElem?_eq_some_iff.mp here
    refine ⟨nofun, ?_⟩
    rw [List.length_nil, Nat.add_zero, Nat.mod_eq_of_lt inside, here, rotating.active]
  | cons run active _ ih =>
    obtain ⟨after, same, there⟩ := rotating.next here run active
    rw [← same] at there
    obtain ⟨places, last⟩ := ih after there
    rw [same] at places last
    generalize s.windowsOf prev.application = windows at *
    constructor
    · intro j inside
      cases j with
      | zero => rw [List.getElem?_cons_zero, Nat.add_zero, ← there, same]
      | succ j =>
        rw [List.getElem?_cons_succ, places j (Nat.lt_of_succ_lt_succ inside), Nat.add_assoc,
          Nat.mod_add_mod]
        congr 2
        omega
    · rw [last, Nat.mod_add_mod, List.length_cons]
      congr 2
      omega

theorem Rotating.turns_any (rotating : s.Rotating prev) (n : Nat) :
    ∃ ws t, Turns focusNextWithinApplication s ws t ∧ ws.length = n := by
  induction n generalizing s prev with
  | zero => exact ⟨[], s, .nil s, rfl⟩
  | succ n ih =>
    obtain ⟨t, run, moved, active⟩ := rotating.returns_next le_rfl
    obtain ⟨after, -⟩ := rotating.refocused moved active (List.next_mem ..)
    obtain ⟨ws, u, turns, long⟩ := ih after
    exact ⟨_ :: ws, u, .cons run active turns, by rw [List.length_cons, long]⟩

end Model

/-- Cycling forwards and backwards are inverse rotations of the windows of an application. -/
theorem cycling_rotates (integrity : s.Integrity) (synced : s.Synced)
    (active : s.activeWindow = some prev) (rotatable : s.Rotatable prev.application) :
    let windows := s.windowsOf prev.application
    ∃ listed : prev ∈ windows,
      (∀ fuel t, focusNextWithinApplication fuel s = .returned () t →
        t.activeWindow = some (windows.next prev listed) ∧
          ∀ fuel ≥ 3, ∃ u, focusPrevWithinApplication fuel t = .returned () u ∧
            u.activeWindow = some prev) ∧
      (∀ fuel t, focusPrevWithinApplication fuel s = .returned () t →
        t.activeWindow = some (windows.prev prev listed) ∧
          ∀ fuel ≥ 3, ∃ u, focusNextWithinApplication fuel t = .returned () u ∧
            u.activeWindow = some prev) ∧
      (∀ fuel ≥ 3, (∃ t, focusNextWithinApplication fuel s = .returned () t) ∧
        ∃ t, focusPrevWithinApplication fuel s = .returned () t) ∧
      (∀ fuel failure t, focusNextWithinApplication fuel s ≠ .thrown failure t ∧
        focusPrevWithinApplication fuel s ≠ .thrown failure t) ∧
      (∀ ws t, Turns focusNextWithinApplication s ws t → ws.length = windows.length →
        ws = windows.rotate (windows.idxOf prev + 1) ∧ ws.Perm windows ∧ ws.Nodup ∧
          t.activeWindow = some prev) ∧
      ∃ ws t, Turns focusNextWithinApplication s ws t ∧ ws.length = windows.length := by
  have rotating : s.Rotating prev := ⟨integrity, synced, active, rotatable⟩
  have nodup : (s.windowsOf prev.application).Nodup := integrity.windowsOf_nodup
  refine ⟨rotating.listed, fun fuel t run => ?_, fun fuel t run => ?_, fun fuel enough => ?_,
    fun fuel failure t => ?_, fun ws t turns whole => ?_, rotating.turns_any _⟩
  · obtain ⟨moved, now⟩ := rotating.ensures_next.returned run
    refine ⟨now, fun fuel enough => ?_⟩
    obtain ⟨after, same⟩ := rotating.refocused moved now (List.next_mem ..)
    obtain ⟨u, back, -, then'⟩ := after.returns_prev enough
    refine ⟨u, back, ?_⟩
    simp only [same] at then'
    rw [then', List.prev_next _ nodup]
  · obtain ⟨moved, now⟩ := rotating.ensures_prev.returned run
    refine ⟨now, fun fuel enough => ?_⟩
    obtain ⟨after, same⟩ := rotating.refocused moved now (List.prev_mem ..)
    obtain ⟨u, back, -, then'⟩ := after.returns_next enough
    refine ⟨u, back, ?_⟩
    simp only [same] at then'
    rw [then', List.next_prev _ nodup]
  · obtain ⟨t, run, -⟩ := rotating.returns_next enough
    obtain ⟨t', run', -⟩ := rotating.returns_prev enough
    exact ⟨⟨t, run⟩, t', run'⟩
  · exact ⟨rotating.ensures_next.thrown, rotating.ensures_prev.thrown⟩
  · have inside : (s.windowsOf prev.application).idxOf prev <
        (s.windowsOf prev.application).length := List.idxOf_lt_length_of_mem rotating.listed
    have here := List.getElem?_idxOf rotating.listed
    obtain ⟨places, last⟩ := rotating.turns turns here
    have rotated := Lap.eq_rotate places whole
    have perm : ws.Perm (s.windowsOf prev.application) := rotated ▸ List.rotate_perm _ _
    refine ⟨rotated, perm, perm.nodup_iff.mpr nodup, ?_⟩
    rw [last, whole, Nat.add_mod_right, Nat.mod_eq_of_lt inside, here]

theorem cycling_rotates_pair : ∃ ws t,
    Turns focusNextWithinApplication pairState ws t ∧ ws = [⟨1, 1⟩, ⟨1, 2⟩] ∧
      t.activeWindow = some ⟨1, 2⟩ := by
  have coherent : pairState.Coherent := (reachable_pairState.mono fun _ _ h => h.1).coherent
  have windows : pairState.windowsOf 1 = [⟨1, 1⟩, ⟨1, 2⟩] := by decide +kernel
  have focusable : ∀ w ∈ pairState.windowsOf 1, pairState.Focusable w := by
    intro w listed
    have seen : ∀ w ∈ pairState.windowsOf 1, (pairState.info? w).any fun info =>
        info.type.canBeActive ∧ pairState.isVisible w info := by decide +kernel
    simpa [Focusable, Option.any_eq_true] using seen w listed
  have rotatable : pairState.Rotatable 1 :=
    ⟨by decide +kernel, by decide +kernel, focusable, .inr ⟨7, by decide +kernel⟩⟩
  have active : pairState.activeWindow = some ⟨1, 2⟩ := by decide +kernel
  obtain ⟨listed, -, -, -, -, rounds, ws, t, turns, whole⟩ :=
    cycling_rotates coherent.integrity coherent.synced active rotatable
  obtain ⟨rotated, -, -, back⟩ := rounds ws t turns whole
  refine ⟨ws, t, turns, ?_, back⟩
  simp only [rotated, windows]
  rfl

end Miral
