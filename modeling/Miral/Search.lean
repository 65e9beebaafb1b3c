import Miral.Selection

/-! The searches that pick the next window to focus. The ones over the MRU list take the
first candidate whose selection succeeds; the others are bounded by what any sequence of
selections preserves. -/
namespace Miral

open Program Prog Forest

namespace Model

variable {s t : Model} {w v x : Window} {r : Option Window} {ws ws' : List Window}

/-- The first of several windows from which the search for a window to focus succeeds. -/
inductive FirstPick (s : Model) : List Window → Option Window → Prop where
  | nil : FirstPick s [] none
  | found {w x : Window} {rest : List Window} : s.Picks w (some x) →
      FirstPick s (w :: rest) (some x)
  | missed {w : Window} {rest : List Window} {r : Option Window} : s.Picks w none →
      FirstPick s rest r → FirstPick s (w :: rest) r

def candidates (s : Model) (admits : Model → Window → Bool) : List Window :=
  s.mruActiveWindows.reverse.filter fun w => s.visible w && admits s w

/-- The windows `refocus` tries, in the order of its cascade. -/
def fallbacks (s : Model) (application : Application) (parent : Option Window)
    (workspaces : List Workspace) : List Window :=
  (s.lock parent).toList ++
  (s.candidates (fun s w => some w.application = some application ∧
    s.sharesWorkspace w workspaces) ++
  (s.candidates (fun s w => s.sharesWorkspace w workspaces) ++
  (s.candidates (fun _ w => some w.application = some application) ++
  s.candidates fun _ _ => true)))

/-- The windows `set_state` tries when it hides `w`. -/
def hideFallbacks (s : Model) (w : Window) : List Window :=
  w :: (s.candidates (fun s v => v ≠ w ∧ s.sharesWorkspace v (s.workspacesContaining w)) ++
    s.candidates fun _ v => v ≠ w)

theorem mem_candidates {admits : Model → Window → Bool} :
    w ∈ s.candidates admits ↔ w ∈ s.mruActiveWindows ∧ s.visible w ∧ admits s w := by
  simp [candidates]

namespace FirstPick

theorem append_found (h : s.FirstPick ws (some x)) : s.FirstPick (ws ++ ws') (some x) := by
  generalize eq : some x = r at h
  induction h with
  | nil => contradiction
  | found picks => exact eq ▸ .found (eq ▸ picks)
  | missed picks _ ih => exact .missed picks (ih eq)

theorem append_missed (h : s.FirstPick ws none) (h' : s.FirstPick ws' r) :
    s.FirstPick (ws ++ ws') r := by
  generalize eq : none = r' at h
  induction h with
  | nil => exact h'
  | found => contradiction
  | missed picks _ ih => exact .missed picks (ih eq)

theorem picked (h : s.FirstPick ws r) : ∀ x, r = some x → ∃ w ∈ ws, s.Picks w (some x) := by
  induction h with
  | nil => simp
  | found picks =>
    rintro x ⟨rfl⟩
    exact ⟨_, by simp, picks⟩
  | missed _ _ ih =>
    intro x eq
    obtain ⟨w, member, picks⟩ := ih x eq
    exact ⟨w, by simp [member], picks⟩

theorem missed_all (h : s.FirstPick ws none) : ∀ w ∈ ws, s.Picks w none := by
  generalize eq : none = r at h
  induction h with
  | nil => simp
  | found => contradiction
  | missed picks _ ih =>
    subst eq
    intro w member
    rcases List.mem_cons.mp member with rfl | member
    · exact picks
    · exact ih rfl w member

theorem focusable (h : s.FirstPick ws (some x)) : s.Focusable x := by
  obtain ⟨w, _, picks⟩ := h.picked x rfl
  exact picks.focusable x rfl

theorem det {r' : Option Window} (h : s.FirstPick ws r) (h' : s.FirstPick ws r') : r = r' := by
  induction h with
  | nil => cases h'; rfl
  | found picks =>
    cases h' with
    | found picks' => exact picks.det picks'
    | missed picks' => exact absurd (picks.det picks') (by simp)
  | missed picks _ ih =>
    cases h' with
    | found picks' => exact absurd (picks.det picks') (by simp)
    | missed _ rest => exact ih rest

theorem of_append {front back : List Window} (h : s.FirstPick (front ++ back) r) :
    (∃ x, r = some x ∧ s.FirstPick front (some x)) ∨
      s.FirstPick front none ∧ s.FirstPick back r := by
  induction front with
  | nil => exact .inr ⟨.nil, h⟩
  | cons w rest ih =>
    cases h with
    | found picks => exact .inl ⟨_, rfl, .found picks⟩
    | missed picks h =>
      rcases ih h with ⟨x, eq, found⟩ | ⟨missed, found⟩
      · exact .inl ⟨x, eq, .missed picks found⟩
      · exact .inr ⟨.missed picks missed, found⟩

theorem split (h : s.FirstPick ws (some x)) : ∃ before w after, ws = before ++ w :: after ∧
    (∀ v ∈ before, s.Picks v none) ∧ s.Picks w (some x) := by
  generalize eq : some x = r at h
  induction h with
  | nil => contradiction
  | found picks => exact ⟨[], _, _, rfl, by simp, eq ▸ picks⟩
  | missed none _ ih =>
    obtain ⟨before, w, after, rfl, missed, picks⟩ := ih eq
    refine ⟨_ :: before, w, after, rfl, ?_, picks⟩
    intro v member
    rcases List.mem_cons.mp member with rfl | member
    · exact none
    · exact missed v member

end FirstPick

end Model

open Model

def Searches (p : Manager (Option Window)) (s : Model) (ws : List Window) (fuel : Nat) : Prop :=
  p.Ensures s (fun r t => s.FirstPick ws r ∧ s.Selected r t) (fun _ _ => False) (s.Short fuel)

section Searches

variable {s : Model} {w : Window} {fuel : Nat}

theorem Searches.orElse {first second : Manager (Option Window)} {ws ws' : List Window}
    (h : Searches first s ws fuel) (h' : Searches second s ws' fuel) :
    Searches (Prog.orElse first second) s (ws ++ ws') fuel := by
  refine ensures_orElse (h.imp ?_)
  intro r t after
  rcases after with ⟨search, selected⟩
  constructor
  · rintro x rfl
    exact ⟨search.append_found, selected⟩
  · rintro rfl
    obtain rfl : t = s := selected
    exact h'.imp (fun r u ⟨rest, selected⟩ => ⟨search.append_missed rest, selected⟩)

theorem ensures_trySelect (integrity : s.Integrity) (live : s.Live w) :
    (trySelect fuel w).Ensures s (fun r t => s.Picks w r ∧ s.Selected r t) (fun _ _ => False)
      (s.Short fuel) := by
  apply (ensures_selectActiveWindow integrity live).bind
  intro r t after
  rcases after with ⟨picks, selected⟩
  rw [ensures_bind, ensures_state, ensures_pure]
  cases r with
  | none => exact ⟨picks, selected⟩
  | some x =>
    obtain ⟨raised, quiet, rfl⟩ := selected
    rw [lock_some (s := s.focusOn x raised) (picks.focusable x rfl).live]
    exact ⟨picks, raised, quiet, rfl⟩

theorem searches_tryWindow (integrity : s.Integrity) (hint : Option Window) :
    Searches (tryWindow fuel (s.lock hint)) s (s.lock hint).toList fuel := by
  cases locked : s.lock hint with
  | none => exact ⟨.nil, rfl⟩
  | some w =>
    refine (ensures_trySelect integrity (lock_eq_some.mp locked).2).imp ?_
    intro r t after
    rcases after with ⟨picks, selected⟩
    cases r with
    | none => exact ⟨.missed picks .nil, selected⟩
    | some x => exact ⟨.found picks, selected⟩

theorem searches_enumerate (fuel : Nat) (integrity : s.Integrity)
    (admits : Model → Window → Bool) (i : Nat) (le : i ≤ s.mruActiveWindows.length) :
    Searches (enumerate (fun w => do
        let s ← Prog.state
        if admits s w then trySelect fuel w else pure none) i) s
      ((s.mruActiveWindows.take i).reverse.filter fun w => s.visible w && admits s w) fuel := by
  induction i with
  | zero => exact ⟨.nil, rfl⟩
  | succ i ih =>
    have lt : i < s.mruActiveWindows.length := le
    have here : s.mruActiveWindows[i]? = some s.mruActiveWindows[i] := List.getElem?_eq_getElem lt
    have rest := ih (Nat.le_of_succ_le le)
    rw [Searches, enumerate, ensures_bind, ensures_state, here]
    rw [List.take_succ_eq_append_getElem lt, List.reverse_concat]
    dsimp only
    by_cases seen : s.visible s.mruActiveWindows[i]
    · rw [if_pos seen, ensures_bind, ensures_bind, ensures_state]
      by_cases admitted : admits s s.mruActiveWindows[i]
      · rw [if_pos admitted, List.filter_cons_of_pos (by simp [seen, admitted])]
        refine (ensures_trySelect integrity (visible_live seen)).imp ?_
        intro r t after
        rcases after with ⟨picks, selected⟩
        cases r with
        | some x => exact ⟨.found picks, selected⟩
        | none =>
          obtain rfl : t = s := selected
          exact rest.imp (fun r u ⟨search, selected⟩ => ⟨.missed picks search, selected⟩)
      · rw [if_neg admitted, List.filter_cons_of_neg (by simp [admitted])]
        exact rest
    · rw [if_neg seen, List.filter_cons_of_neg (by simp [seen])]
      exact rest

theorem searches_enumerateIf (integrity : s.Integrity) (admits : Model → Window → Bool) :
    Searches (enumerateIf fuel admits) s (s.candidates admits) fuel := by
  have := searches_enumerate fuel integrity admits s.mruActiveWindows.length le_rfl
  rwa [List.take_length] at this

/-- `refocus` finds a window by its cascade, or leaves it to `focus_next_application`. -/
theorem ensures_refocus (integrity : s.Integrity) {application : Application}
    {parent : Option Window} {workspaces : List Workspace} {post : Unit → Model → Prop}
    {error : Failure → Model → Prop} {short : Prop} (exhausts : s.Short fuel → short)
    (found : ∀ x t, s.FirstPick (s.fallbacks application parent workspaces) (some x) →
      s.Selected (some x) t → post () t)
    (missed : s.FirstPick (s.fallbacks application parent workspaces) none →
      (focusNextApplication fuel).Ensures s post error short) :
    (refocus fuel application parent workspaces).Ensures s post error short := by
  rw [refocus, ensures_bind, ensures_state, ensures_bind]
  have search : Searches _ s (s.fallbacks application parent workspaces) fuel :=
    (searches_tryWindow integrity parent).orElse <|
    (searches_enumerateIf integrity _).orElse <|
    (searches_enumerateIf integrity _).orElse <|
    (searches_enumerateIf integrity _).orElse (searches_enumerateIf integrity _)
  refine search.mono ?_ (fun _ _ h => h.elim) exhausts
  intro r t after
  rcases after with ⟨picks, selected⟩
  rw [ensures_onlyIf]
  constructor
  · rintro rfl
    obtain rfl : t = s := selected
    exact missed picks
  · intro some
    obtain ⟨x, rfl⟩ := Option.ne_none_iff_exists'.mp some
    exact found x t picks selected

end Searches

namespace Model

/-- The state after `focus_next_session`. -/
def nextFocus (s : Model) : Model :=
  { s with focus := s.focusController.nextSession s.scene.keys s.focus }.emit .focusNextSession

theorem sameStructure_nextFocus {s : Model} : SameStructure s s.nextFocus :=
  .of_frame rfl

theorem focus_nextFocus {s : Model} {w : Window} (live : s.Live w) :
    ∃ v, s.Live v ∧ s.nextFocus.focus = ⟨some v.application, some v⟩ := by
  have member : w ∈ s.scene.keys := AList.mem_keys.mp (AList.lookup_isSome.mp live)
  obtain ⟨v, found, eq⟩ :=
    s.focusController.finds s.scene.keys s.focus (List.ne_nil_of_mem member)
  exact ⟨v, AList.lookup_isSome.mpr (AList.mem_keys.mpr found), eq⟩

theorem lock_nextFocus {s : Model} {w : Window} (live : s.Live w) :
    ∃ v, s.nextFocus.lock s.nextFocus.focus.surface = some v := by
  obtain ⟨v, there, eq⟩ := focus_nextFocus live
  have same : s.nextFocus.Live v ↔ s.Live v := sameStructure_nextFocus.live v
  exact ⟨v, lock_eq_some.mpr ⟨by rw [eq], same.mpr there⟩⟩

end Model

/-- What every selection of a live window keeps, and `focus_next_session` as well. -/
structure FocusClosed (property : Model → Prop) : Prop where
  integrity : ∀ s, property s → s.Integrity
  selected : ∀ s x raised, property s → s.Focusable x → (∀ event ∈ raised, event.quiet) →
    property (s.focusOn x raised)
  next : ∀ s, property s → property s.nextFocus

namespace FocusClosed

variable {property : Model → Prop} (closed : FocusClosed property)
  {s : Model} {w : Window} {fuel : Nat}

include closed

theorem keeps {r : Option Window} {t : Model} (holds : property s) (selected : s.Selected r t)
    (focusable : ∀ x, r = some x → s.Focusable x) : property t := by
  cases r with
  | none =>
    obtain rfl : t = s := selected
    exact holds
  | some x =>
    obtain ⟨raised, quiet, rfl⟩ := selected
    exact closed.selected s x raised holds (focusable x rfl) quiet

theorem select (holds : property s) (live : s.Live w) :
    (selectActiveWindow fuel (some w)).Ensures s (fun _ t => property t) (fun _ _ => False)
      (s.Short fuel) := by
  refine (ensures_selectActiveWindow (closed.integrity s holds) live).imp ?_
  intro r t after
  rcases after with ⟨picks, selected⟩
  exact closed.keeps holds selected picks.focusable

theorem searches {p : Manager (Option Window)} {ws : List Window} (holds : property s)
    (search : Searches p s ws fuel) :
    p.Ensures s (fun r t => property t ∧ (r = none → t = s)) (fun _ _ => False)
      (s.Short fuel) := by
  refine search.imp ?_
  intro r t after
  rcases after with ⟨picks, selected⟩
  constructor
  · apply closed.keeps holds selected
    rintro x rfl
    exact picks.focusable
  · rintro rfl
    exact selected

theorem focusNextInWorkspace (prev : Window) (workspaces : List Workspace) (holds : property s) :
    (focusNextInWorkspace prev workspaces fuel).Ensures s (fun _ t => property t)
      (fun _ _ => False) True := by
  induction fuel generalizing s with
  | zero => trivial
  | succ fuel ih =>
    rw [Miral.focusNextInWorkspace, ensures_bind, focusNextSession, ensures_update]
    have next := closed.next s holds
    rw [ensures_bind, ensures_state]
    apply (closed.searches next (searches_enumerateIf (closed.integrity _ next) _)).bind_exhausted
    intro r t after
    rcases after with ⟨holds, -⟩
    cases r with
    | some x => exact holds
    | none =>
      rw [ensures_bind, ensures_state, ensures_ite]
      exact ⟨fun _ => ih holds, fun _ => holds⟩

/-- The null selection at the end of the cascade is reached only when no surface is left. -/
theorem focusNextAnywhere (holds : property s) :
    (focusNextAnywhere fuel).Ensures s (fun _ t => property t) (fun _ _ => False) True := by
  rw [Miral.focusNextAnywhere, ensures_bind, focusNextSession, ensures_update, ensures_bind,
    ensures_state]
  have next : property s.nextFocus := closed.next s holds
  have integrity := closed.integrity _ next
  apply (closed.searches next (searches_enumerateIf integrity _)).bind_exhausted
  intro r t after
  rcases after with ⟨holds', unchanged⟩
  cases r with
  | some x => exact holds'
  | none =>
    obtain rfl := unchanged rfl
    rw [ensures_bind, ensures_state]
    cases locked : s.nextFocus.lock s.nextFocus.focus.surface with
    | some v =>
      have live := (lock_eq_some.mp locked).2
      simp only [ensures_bind, ensures_infoFor]
      constructor
      · intro _ _
        exact (closed.select next live).unbounded
      intro gone
      have managed := (integrity.live v).mp live
      simp [Managed, gone] at managed
    | none =>
      apply (ensures_selectNull integrity lock_none).bind_exhausted
      intro r t after
      rcases after with ⟨-, rfl⟩
      have inactive : s.nextFocus.activeWindow = none := by
        cases active : s.nextFocus.activeWindow with
        | none => rfl
        | some v =>
          obtain ⟨u, found⟩ := lock_nextFocus (s := s) (integrity.live_mru (activeWindow_mem active))
          simp [found] at locked
      simpa [unfocus, inactive] using next

theorem focusNextApplication (holds : property s) :
    (focusNextApplication fuel).Ensures s (fun _ t => property t) (fun _ _ => False) True := by
  rw [Miral.focusNextApplication, ensures_bind, ensures_state]
  cases s.activeWindow with
  | none => exact closed.focusNextAnywhere holds
  | some prev =>
    dsimp only
    rw [ensures_ite, ensures_bind]
    refine ⟨fun _ => ?_, fun _ => closed.focusNextAnywhere holds⟩
    refine (closed.focusNextInWorkspace prev _ holds).imp ?_
    intro found t holds'
    rw [ensures_ite]
    exact ⟨fun _ => holds', fun _ => closed.focusNextAnywhere holds'⟩

theorem framed (s : Model) : FocusClosed fun t => property t ∧ SameStructure s t where
  integrity t := fun ⟨holds, _⟩ => closed.integrity t holds
  selected t x raised := fun ⟨holds, same⟩ focusable quiet =>
    ⟨closed.selected t x raised holds focusable quiet, same.trans sameStructure_focusOn⟩
  next t := fun ⟨holds, same⟩ => ⟨closed.next t holds, same.trans sameStructure_nextFocus⟩

theorem selectForEach {prev current : Window} {workspaces : List Workspace} (holds : property s)
    (live : ∀ t, property t → t.Live current) :
    (selectForEach fuel prev current workspaces).Ensures s (fun _ t => property t)
      (fun _ _ => False) True := by
  induction workspaces generalizing s with
  | nil => exact holds
  | cons workspace rest ih =>
    apply (closed.select holds (live s holds)).bind_exhausted
    intro selected t holds'
    rw [ensures_ite]
    exact ⟨fun _ => holds', fun _ => ih holds'⟩

theorem selectSiblingInWorkspace {prev : Window} {workspaces : List Workspace}
    {siblings : List Window} (holds : property s)
    (live : ∀ w ∈ siblings, ∀ t, property t → t.Live w) :
    (selectSiblingInWorkspace fuel prev workspaces siblings).Ensures s (fun _ t => property t)
      (fun _ _ => False) True := by
  induction siblings generalizing s with
  | nil => exact holds
  | cons current rest ih =>
    rw [Miral.selectSiblingInWorkspace, ensures_bind, ensures_state]
    apply (closed.selectForEach holds (live current (by simp))).bind
    intro found t holds'
    rw [ensures_ite]
    exact ⟨fun _ => holds', fun _ => ih holds' fun w member => live w (by simp [member])⟩

theorem selectSibling {prev : Window} {siblings : List Window} (holds : property s)
    (live : ∀ w ∈ siblings, ∀ t, property t → t.Live w) :
    (selectSibling fuel prev siblings).Ensures s (fun _ t => property t) (fun _ _ => False)
      True := by
  induction siblings generalizing s with
  | nil => exact holds
  | cons current rest ih =>
    apply (closed.select holds (live current (by simp) s holds)).bind_exhausted
    intro selected t holds'
    rw [ensures_ite]
    exact ⟨fun _ => holds', fun _ => ih holds' fun w member => live w (by simp [member])⟩

theorem focusSibling (order : List Window → List Window) (part : ∀ ws, order ws ⊆ ws)
    (holds : property s) :
    (focusSibling fuel order).Ensures s (fun _ t => property t) (fun _ _ => False) True := by
  rw [Miral.focusSibling, ensures_bind, ensures_state]
  cases active : s.activeWindow with
  | none => exact holds
  | some prev =>
    have integrity := closed.integrity s holds
    obtain ⟨app, found⟩ := integrity.app_exists (integrity.managed_active active)
    rw [ensures_bind, ensures_infoForSession]
    refine ⟨fun app' found' => ?_, fun gone => by simp [gone] at found⟩
    have framed := closed.framed s
    have live (w : Window) (member : w ∈ order app'.windows) (t : Model)
        (kept : property t ∧ SameStructure s t) : t.Live w := by
      rw [kept.2.live, integrity.live]
      have listed := part _ member
      rw [← windowsOf_eq found', integrity.mem_windowsOf] at listed
      exact listed.1
    have after (w : Window) (member : w ∈ ((order app'.windows).dropWhile (· ≠ prev)).tail) :=
      live w (List.dropWhile_subset _ (List.mem_of_mem_tail member))
    have before (w : Window) (member : w ∈ (order app'.windows).takeWhile (· ≠ prev)) :=
      live w (List.takeWhile_subset _ member)
    suffices kept : Ensures _ s (fun _ t => property t ∧ SameStructure s t) (fun _ _ => False)
        True from kept.imp (fun _ _ h => h.1)
    apply (framed.selectSiblingInWorkspace ⟨holds, .refl⟩ after).bind
    intro _ t holds
    rw [ensures_ite]
    constructor
    · intro _
      exact holds
    intro _
    apply (framed.selectSiblingInWorkspace holds before).bind
    intro _ t holds
    rw [ensures_ite]
    constructor
    · intro _
      exact holds
    intro _
    apply (framed.selectSibling holds after).bind
    intro _ t holds
    rw [ensures_ite]
    constructor
    · intro _
      exact holds
    intro _
    exact (framed.selectSibling holds before).bind fun _ t holds => holds

theorem refocus {application : Application} {parent : Option Window}
    {workspaces : List Workspace} (holds : property s) :
    (refocus fuel application parent workspaces).Ensures s (fun _ t => property t)
      (fun _ _ => False) True := by
  refine ensures_refocus (closed.integrity s holds) (fun _ => trivial) ?_ ?_
  · intro x t picks selected
    apply closed.keeps holds selected
    rintro x ⟨rfl⟩
    exact picks.focusable
  · exact fun _ => closed.focusNextApplication holds

theorem handleWindowReady (holds : property s) :
    (handleWindowReady fuel w).Ensures s (fun _ t => property t) (fun _ t => property t) True := by
  rw [Miral.handleWindowReady, ensures_bind, ensures_infoFor]
  refine ⟨fun info here => ?_, fun _ => holds⟩
  rw [ensures_onlyIf, ensures_bind]
  refine ⟨fun _ => (closed.select holds ?_).mono (fun _ _ h => h) (fun _ _ h => h.elim)
    fun _ => trivial,
    fun _ => holds⟩
  exact (closed.integrity s holds).live_of_info here

theorem handleRaiseSurface {timestamp : Nat} (holds : property s) :
    (handleRaiseSurface fuel w timestamp).Ensures s (fun _ t => property t)
      (fun _ t => property t) True := by
  rw [Miral.handleRaiseSurface, ensures_bind, ensures_state, ensures_onlyIf, ensures_bind,
    ensures_infoFor]
  refine ⟨fun _ => ⟨fun info here => ?_, fun _ => holds⟩, fun _ => holds⟩
  rw [ensures_bind]
  refine (closed.select holds ?_).mono (fun _ _ h => h) (fun _ _ h => h.elim)
    fun _ => trivial
  exact (closed.integrity s holds).live_of_info here

end FocusClosed

end Miral
