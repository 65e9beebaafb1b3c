import Miral.StateFocus

/-! Cycling through the windows of an application: `focus_next_within_application` and
`focus_prev_within_application` go on while the selection comes back to the active window, and
stop at the first one that does not, also if it finds no window at all. -/
namespace Miral

open Program Prog Forest Model

namespace Model

variable {s t : Model} {w v prev x : Window} {r : Option Window} {ws ws' : List Window}

/-- The first result, over several windows, that is not `prev`, if there is one. -/
inductive FirstElse (s : Model) (prev : Window) : List Window → Option (Option Window) → Prop where
  | nil : FirstElse s prev [] none
  | stops {w : Window} {rest : List Window} {r : Option Window} : s.Picks w r → r ≠ some prev →
      FirstElse s prev (w :: rest) (some r)
  | back {w : Window} {rest : List Window} {r : Option (Option Window)} : s.Picks w (some prev) →
      FirstElse s prev rest r → FirstElse s prev (w :: rest) r

namespace FirstElse

theorem append_stops (first : s.FirstElse prev ws (some r)) :
    s.FirstElse prev (ws ++ ws') (some r) := by
  generalize eq : some r = result at first
  induction first with
  | nil => contradiction
  | stops picks other => exact eq ▸ .stops (Option.some.inj eq ▸ picks) (Option.some.inj eq ▸ other)
  | back picks _ ih => exact .back picks (ih eq)

theorem append_back {result : Option (Option Window)} (first : s.FirstElse prev ws none)
    (second : s.FirstElse prev ws' result) : s.FirstElse prev (ws ++ ws') result := by
  generalize eq : none = outcome at first
  induction first with
  | nil => exact second
  | stops => contradiction
  | back picks _ ih => exact .back picks (ih eq)

theorem det {result result' : Option (Option Window)} (first : s.FirstElse prev ws result)
    (first' : s.FirstElse prev ws result') : result = result' := by
  induction first with
  | nil =>
    cases first'
    rfl
  | stops picks other =>
    cases first' with
    | stops picks' => rw [picks.det picks']
    | back picks' => exact absurd (picks.det picks') other
  | back picks _ ih =>
    cases first' with
    | stops picks' other => exact absurd (picks'.det picks) other
    | back _ rest => exact ih rest

theorem back_all (first : s.FirstElse prev ws none) : ∀ w ∈ ws, s.Picks w (some prev) := by
  generalize eq : none = result at first
  induction first with
  | nil => nofun
  | stops => contradiction
  | back picks _ ih =>
    intro w member
    rcases List.mem_cons.mp member with rfl | member
    · exact picks
    · exact ih eq w member

theorem ne_prev (first : s.FirstElse prev ws (some r)) : r ≠ some prev := by
  generalize eq : some r = result at first
  induction first with
  | nil => contradiction
  | stops _ other => exact Option.some.inj eq ▸ other
  | back _ _ ih => exact ih eq

end FirstElse

/-- The siblings in the order they are tried: after `prev` and then before it, first those that
share a workspace with it, then all. -/
def siblingsTried (s : Model) (prev : Window) (order : List Window → List Window) : List Window :=
  let siblings := order (s.windowsOf prev.application)
  let before := siblings.takeWhile (· ≠ prev)
  let after := (siblings.dropWhile (· ≠ prev)).tail
  let shares := fun w => s.sharesWorkspace w (s.workspacesContaining prev)
  after.filter shares ++ (before.filter shares ++ (after ++ before))

/-- Every selection so far has come back to the active window. -/
structure Revisited (prev : Window) (s t : Model) : Prop where
  frame : t = { s with
    mruActiveWindows := t.mruActiveWindows, focus := t.focus, log := t.log }
  active : t.activeWindow = some prev
  integrity : t.Integrity

namespace Revisited

variable (revisited : Revisited prev s t)

include revisited

theorem alike : Alike t s where
  live v := by rw [revisited.frame]; rfl
  parents v := by rw [revisited.frame]; rfl
  children v := by rw [revisited.frame]; rfl
  types v := by rw [revisited.frame]; rfl
  focusable v := by rw [revisited.frame]; rfl

theorem workspacesContaining : t.workspacesContaining w = s.workspacesContaining w := by
  rw [revisited.frame]
  rfl

theorem short {fuel : Nat} : t.Short fuel → s.Short fuel :=
  Short.congr fun v => (revisited.alike.parents v).symm

theorem selected {u : Model} (synced : s.Synced) (picks : t.Picks w r) (selected : t.Selected r u) :
    s.Picks w r ∧ u.activeWindow = some (r.getD prev) ∧
      (r = some prev → Revisited prev s u) := by
  refine ⟨revisited.alike.picks picks, ?_⟩
  cases r with
  | none =>
    obtain rfl : u = t := selected
    exact ⟨revisited.active, nofun⟩
  | some x =>
    obtain ⟨raised, -, rfl⟩ := selected
    have focusable := picks.focusable x rfl
    have synced' : t.Synced := by
      rw [revisited.frame]
      exact synced
    have active : (t.focusOn x raised).activeWindow = some x :=
      activeWindow_focusOn (focusable.visible synced')
    refine ⟨active, ?_⟩
    rintro ⟨rfl⟩
    refine ⟨?_, active, revisited.integrity.focusOn focusable.managed⟩
    rw [focusOn, revisited.frame]

end Revisited

end Model

variable {s t : Model} {w v prev : Window} {fuel : Nat} {ws : List Window}

/-- The outcome of a loop over some siblings: it stopped at the first that did not come back, or
all have come back. -/
def Model.Cycled (prev : Window) (ws : List Window) (s : Model) (found : Bool) (u : Model) : Prop :=
  (found = true → ∃ r, s.FirstElse prev ws (some r) ∧ u.activeWindow = some (r.getD prev)) ∧
    (found = false → s.FirstElse prev ws none ∧ Revisited prev s u)

/-- The window can be selected whenever the selections so far have come back. -/
def Model.Selects (s : Model) (prev : Window) (fuel : Nat) (short : Prop) (w : Window) : Prop :=
  ∀ t, Revisited prev s t → (selectActiveWindow fuel (some w)).Ensures t
    (fun r u => t.Picks w r ∧ t.Selected r u) (fun _ _ => False) short

/-- A loop that is left after the first part of the siblings, or goes on with the others. -/
theorem cycled_append {short : Prop} {first : Manager Bool} {rest : Manager Bool} {ws' : List Window}
    (one : first.Ensures t (s.Cycled prev ws) (fun _ _ => False) short)
    (others : ∀ u, Revisited prev s u →
      rest.Ensures u (s.Cycled prev ws') (fun _ _ => False) short) :
    Ensures (do if ← first then pure true else rest) t (s.Cycled prev (ws ++ ws'))
      (fun _ _ => False) short := by
  apply one.bind
  intro found u cycled
  rw [ensures_ite]
  constructor
  · intro stopped
    obtain ⟨r, result, active⟩ := cycled.1 stopped
    exact ⟨fun _ => ⟨r, result.append_stops, active⟩, nofun⟩
  · intro on
    obtain ⟨back, revisited⟩ := cycled.2 (by simpa using on)
    refine (others u revisited).imp ?_
    intro found t after
    rcases after with ⟨stops, goes⟩
    constructor
    · intro stopped
      obtain ⟨r, result, active⟩ := stops stopped
      exact ⟨r, back.append_back result, active⟩
    · intro on
      exact ⟨back.append_back (goes on).1, (goes on).2⟩

section Loops

variable {short : Prop} (synced : s.Synced) (revisited : Revisited prev s t)

include synced revisited

theorem ensures_selectOther (selects : s.Selects prev fuel short w) {rest : Manager Bool}
    {post : Bool → Model → Prop}
    (stops : ∀ r u, s.Picks w r → r ≠ some prev → u.activeWindow = some (r.getD prev) → post true u)
    (back : ∀ u, s.Picks w (some prev) → Revisited prev s u →
      rest.Ensures u post (fun _ _ => False) short) :
    Ensures (do
      let selected ← selectActiveWindow fuel (some w)
      if selected ≠ some prev then pure true else rest) t post (fun _ _ => False)
      short := by
  refine (ensures_bind ..).mpr ((selects t revisited).imp ?_)
  intro r u after
  rcases after with ⟨picks, selected⟩
  obtain ⟨picks, active, again⟩ := revisited.selected synced picks selected
  rw [ensures_ite]
  constructor
  · exact fun other => stops r u picks other active
  · intro same
    obtain rfl := not_not.mp same
    exact back u picks (again rfl)

theorem ensures_selectSibling (selects : ∀ w ∈ ws, s.Selects prev fuel short w) :
    (selectSibling fuel prev ws).Ensures t (s.Cycled prev ws) (fun _ _ => False)
      short := by
  induction ws generalizing t with
  | nil => exact ⟨nofun, fun _ => ⟨.nil, revisited⟩⟩
  | cons w rest ih =>
    refine ensures_selectOther synced revisited (selects w List.mem_cons_self) ?_ ?_
    · intro r u picks other active
      exact ⟨fun _ => ⟨r, .stops picks other, active⟩, nofun⟩
    · intro u picks revisited
      refine (ih revisited fun w member => selects w (List.mem_cons_of_mem _ member)).imp ?_
      intro found t after
      rcases after with ⟨stops, goes⟩
      refine ⟨fun stopped => ?_, fun on => ⟨.back picks (goes on).1, (goes on).2⟩⟩
      obtain ⟨r, result, active⟩ := stops stopped
      exact ⟨r, .back picks result, active⟩

theorem ensures_selectForEach (selects : s.Selects prev fuel short w) (shared : List Workspace) :
    (selectForEach fuel prev w shared).Ensures t
      (s.Cycled prev (if shared = [] then [] else [w])) (fun _ _ => False) short := by
  induction shared generalizing t with
  | nil => exact ⟨nofun, fun _ => ⟨.nil, revisited⟩⟩
  | cons k rest ih =>
    rw [if_neg (by simp)]
    refine ensures_selectOther synced revisited selects ?_ ?_
    · intro r u picks other active
      exact ⟨fun _ => ⟨r, .stops picks other, active⟩, nofun⟩
    · intro u picks revisited
      refine (ih revisited).imp ?_
      intro found t after
      rcases after with ⟨stops, goes⟩
      refine ⟨fun stopped => ?_, fun on => ⟨.back picks .nil, (goes on).2⟩⟩
      obtain ⟨r, result, active⟩ := stops stopped
      split at result
      · cases result
      · exact ⟨r, result, active⟩

theorem ensures_selectSiblingInWorkspace (selects : ∀ w ∈ ws, s.Selects prev fuel short w)
    (workspaces : List Workspace) :
    (selectSiblingInWorkspace fuel prev workspaces ws).Ensures t
      (s.Cycled prev (ws.filter fun w => s.sharesWorkspace w workspaces)) (fun _ _ => False)
      short := by
  induction ws generalizing t with
  | nil => exact ⟨nofun, fun _ => ⟨.nil, revisited⟩⟩
  | cons w rest ih =>
    rw [selectSiblingInWorkspace, ensures_bind, ensures_state]
    have shared : (t.workspacesContaining w).flatMap
        (fun workspace => workspaces.filter (· = workspace)) = [] ↔
          ¬s.sharesWorkspace w workspaces := by
      rw [sharesWorkspace_iff, revisited.workspacesContaining]
      simp only [List.flatMap_eq_nil_iff, List.filter_eq_nil_iff, decide_eq_true_eq]
      grind
    have split : (w :: rest).filter (fun w => s.sharesWorkspace w workspaces) =
        (if (t.workspacesContaining w).flatMap
          (fun workspace => workspaces.filter (· = workspace)) = [] then [] else [w]) ++
            rest.filter fun w => s.sharesWorkspace w workspaces := by
      by_cases shares : s.sharesWorkspace w workspaces
      · rw [if_neg (fun none => shared.mp none shares), List.filter_cons, if_pos shares]
        rfl
      · rw [if_pos (shared.mpr shares), List.filter_cons, if_neg shares]
        rfl
    rw [split]
    exact cycled_append (ensures_selectForEach synced revisited (selects w List.mem_cons_self) _)
      fun u revisited => ih revisited fun w member => selects w (List.mem_cons_of_mem _ member)

end Loops

/-- The outcome of all loops: the window the first selection that did not come back has found,
else still the active one. -/
def Model.Ended (prev : Window) (ws : List Window) (s t : Model) : Prop :=
  ∃ result, s.FirstElse prev ws result ∧
    t.activeWindow = some ((result.getD (some prev)).getD prev)

theorem Model.Cycled.ended {found : Bool} (cycled : s.Cycled prev ws found t) :
    s.Ended prev ws t := by
  cases found with
  | true =>
    obtain ⟨r, result, active⟩ := cycled.1 rfl
    exact ⟨some r, result, active⟩
  | false =>
    obtain ⟨back, revisited⟩ := cycled.2 rfl
    exact ⟨none, back, revisited.active⟩

theorem cycled_then {short : Prop} {first : Manager Bool} {rest : Manager Unit} {ws' : List Window}
    (one : first.Ensures t (s.Cycled prev ws) (fun _ _ => False) short)
    (others : ∀ u, Revisited prev s u →
      rest.Ensures u (fun _ v => s.Ended prev ws' v) (fun _ _ => False) short) :
    Ensures (do if ← first then pure () else rest) t (fun _ v => s.Ended prev (ws ++ ws') v)
      (fun _ _ => False) short := by
  apply one.bind
  intro found u cycled
  rw [ensures_ite]
  constructor
  · intro stopped
    obtain ⟨r, result, active⟩ := cycled.1 stopped
    exact ⟨some r, result.append_stops, active⟩
  · intro on
    obtain ⟨back, revisited⟩ := cycled.2 (by simpa using on)
    refine (others u revisited).imp ?_
    intro _ v after
    rcases after with ⟨result, rest, active⟩
    exact ⟨result, back.append_back rest, active⟩

/-- What the four loops come to, if each sibling can be selected. -/
theorem ensures_focusSibling_of {short : Prop} (integrity : s.Integrity) (synced : s.Synced)
    (active : s.activeWindow = some prev) (order : List Window → List Window)
    (part : ∀ ws, order ws ⊆ ws)
    (selects : ∀ w ∈ s.windowsOf prev.application, s.Selects prev fuel short w) :
    (focusSibling fuel order).Ensures s (fun _ t => s.Ended prev (s.siblingsTried prev order) t)
      (fun _ _ => False) short := by
  obtain ⟨app, found⟩ := integrity.app_exists (integrity.managed_active active)
  rw [focusSibling, ensures_bind, ensures_state, active]
  dsimp only
  rw [ensures_bind, ensures_infoForSession]
  refine ⟨fun app' found' => ?_, fun gone => by simp [gone] at found⟩
  rw [windowsOf_eq found'] at selects
  have after (w : Window) (member : w ∈ ((order app'.windows).dropWhile (· ≠ prev)).tail) :=
    selects w (part _ (List.dropWhile_subset _ (List.mem_of_mem_tail member)))
  have before (w : Window) (member : w ∈ (order app'.windows).takeWhile (· ≠ prev)) :=
    selects w (part _ (List.takeWhile_subset _ member))
  unfold siblingsTried
  rw [windowsOf_eq found']
  have start : Revisited prev s s := ⟨rfl, active, integrity⟩
  apply cycled_then (ensures_selectSiblingInWorkspace synced start after _)
  intro _ revisited
  refine cycled_then (ensures_selectSiblingInWorkspace synced revisited before _)
    fun _ revisited => ?_
  apply cycled_then (ensures_selectSibling synced revisited after)
  intro _ revisited
  exact (ensures_selectSibling synced revisited before).bind fun _ _ cycled => cycled.ended

theorem ensures_focusSibling (integrity : s.Integrity) (synced : s.Synced)
    (active : s.activeWindow = some prev) (order : List Window → List Window)
    (part : ∀ ws, order ws ⊆ ws) :
    (focusSibling fuel order).Ensures s (fun _ t => s.Ended prev (s.siblingsTried prev order) t)
      (fun _ _ => False) (s.Short fuel) := by
  apply ensures_focusSibling_of integrity synced active order part
  intro w listed t revisited
  have live := (integrity.live w).mpr (integrity.mem_windowsOf.mp listed).1
  exact (ensures_selectActiveWindow revisited.integrity ((revisited.alike.live w).mp live)).mono
    (fun _ _ h => h) (fun _ _ h => h) revisited.short

theorem mem_siblingsTried {order : List Window → List Window}
    (whole : ∀ ws w, w ∈ ws → w ∈ order ws) (listed : v ∈ s.windowsOf prev.application)
    (other : v ≠ prev) : v ∈ s.siblingsTried prev order := by
  unfold siblingsTried
  have member := whole _ v listed
  generalize order (s.windowsOf prev.application) = siblings at member
  rw [← siblings.takeWhile_append_dropWhile (p := fun w => decide (w ≠ prev)),
    List.mem_append] at member
  simp only [List.mem_append]
  rcases member with before | after
  · exact .inr (.inr (.inr before))
  · refine .inr (.inr (.inl ?_))
    have first := siblings.head?_dropWhile_not fun w => decide (w ≠ prev)
    cases rest : siblings.dropWhile fun w => decide (w ≠ prev) with
    | nil =>
      rw [rest] at after
      contradiction
    | cons head tail =>
      rw [rest] at after first
      rcases List.mem_cons.mp after with rfl | behind
      · exact absurd first (by simp [other])
      · exact behind

/-- Cycling reaches another window of the application if and only if no sibling from which
nothing is found comes before the first one that leads to another window. -/
theorem cycling_progresses (integrity : s.Integrity) (acyclic : s.Acyclic) (synced : s.Synced)
    (active : s.activeWindow = some prev) (managed : s.Managed v)
    (same : v.application = prev.application) (other : v ≠ prev)
    (would : ∃ fuel x u, selectActiveWindow fuel (some v) s = .returned (some x) u ∧ x ≠ prev) :
    (∀ fuel t, focusNextWithinApplication fuel s = .returned () t →
      ((∃ y, t.activeWindow = some y ∧ y ≠ prev) ↔
        ¬s.FirstElse prev (s.siblingsTried prev id) (some none))) ∧
    (∀ fuel t, focusPrevWithinApplication fuel s = .returned () t →
      ((∃ y, t.activeWindow = some y ∧ y ≠ prev) ↔
        ¬s.FirstElse prev (s.siblingsTried prev List.reverse) (some none))) ∧
    (∀ fuel failure t, focusNextWithinApplication fuel s ≠ .thrown failure t ∧
      focusPrevWithinApplication fuel s ≠ .thrown failure t) ∧
    ∃ n, ∀ fuel ≥ n, (∃ t, focusNextWithinApplication fuel s = .returned () t) ∧
      ∃ t, focusPrevWithinApplication fuel s = .returned () t := by
  obtain ⟨fuel, x, u, run, ne⟩ := would
  have live := (integrity.live v).mpr managed
  have picks : s.Picks v (some x) :=
    ((ensures_selectActiveWindow integrity live).returned run).1
  have listed : v ∈ s.windowsOf prev.application := integrity.mem_windowsOf.mpr ⟨managed, same⟩
  have ends (ws : List Window) (t : Model) (member : v ∈ ws) (ended : s.Ended prev ws t) :
      (∃ y, t.activeWindow = some y ∧ y ≠ prev) ↔ ¬s.FirstElse prev ws (some none) := by
    obtain ⟨result, first, now⟩ := ended
    rw [now]
    cases result with
    | none =>
      have back := first.back_all v member
      exact absurd (Option.some.inj (picks.det back)) ne
    | some r =>
      cases r with
      | none => exact iff_of_false (by simp) fun none => none first
      | some y =>
        refine iff_of_true ⟨y, rfl, fun eq => first.ne_prev (by rw [eq])⟩ fun none => ?_
        exact absurd (first.det none) (by simp)
  have next (fuel : Nat) : (focusNextWithinApplication fuel).Ensures s
      (fun _ t => s.Ended prev (s.siblingsTried prev id) t) (fun _ _ => False) (s.Short fuel) :=
    ensures_focusSibling integrity synced active id fun _ => List.Subset.refl _
  have previous (fuel : Nat) : (focusPrevWithinApplication fuel).Ensures s
      (fun _ t => s.Ended prev (s.siblingsTried prev List.reverse) t) (fun _ _ => False)
      (s.Short fuel) :=
    ensures_focusSibling integrity synced active List.reverse fun _ =>
      List.reverse_subset.mpr (List.Subset.refl _)
  refine ⟨fun fuel t run => ?_, fun fuel t run => ?_, fun fuel failure t => ?_, ?_⟩
  · exact ends _ t (mem_siblingsTried (fun _ _ h => h) listed other) ((next fuel).returned run)
  · exact ends _ t (mem_siblingsTried (fun _ _ h => List.mem_reverse.mpr h) listed other)
      ((previous fuel).returned run)
  · exact ⟨(next fuel).thrown, (previous fuel).thrown⟩
  · obtain ⟨n, enough⟩ := acyclic.enough
    refine ⟨n, fun fuel le => ?_⟩
    obtain ⟨_, t, run, -⟩ := (next fuel).returns (enough fuel le)
    obtain ⟨_, t', run', -⟩ := (previous fuel).returns (enough fuel le)
    exact ⟨⟨t, run⟩, t', run'⟩

/-- Three windows of an application; the oldest is minimized, the newest has the focus. -/
def Op.threeRun : List Op :=
  [.addSession 1, .addSurface 1 { size := ⟨100, 80⟩ } 1, .postBuffer ⟨1, 1⟩,
    .handleWindowReady ⟨1, 1⟩, .addSurface 1 { size := ⟨100, 80⟩ } 2, .postBuffer ⟨1, 2⟩,
    .handleWindowReady ⟨1, 2⟩, .addSurface 1 { size := ⟨100, 80⟩ } 3, .postBuffer ⟨1, 3⟩,
    .handleWindowReady ⟨1, 3⟩, .modifySurface ⟨1, 1⟩ { state := some .minimized }]

def Model.threeState : Model :=
  (Op.follow 12 (fun s op => op.Contract s ∧ op.asksParent = false) Op.threeRun .start).get
    (by decide +kernel)

theorem reachable_threeState :
    Reachable (fun s op => op.Contract s ∧ op.asksParent = false) threeState :=
  (Reachable.initial _ _).follow (Option.some_get _).symm

theorem select_threeState :
    ∃ u, selectActiveWindow 12 (some ⟨1, 2⟩) threeState = .returned (some ⟨1, 2⟩) u := by
  have picked : (selectActiveWindow 12 (some ⟨1, 2⟩) threeState).value? = some (some ⟨1, 2⟩) := by
    decide +kernel
  exact Outcome.value?_eq_some.mp picked

/-- Backwards, the window before the newest comes first. -/
theorem cycling_progresses_backwards : ∃ n, ∀ fuel ≥ n, ∃ t y,
    focusPrevWithinApplication fuel threeState = .returned () t ∧
      t.activeWindow = some y ∧ y ≠ ⟨1, 3⟩ := by
  have reached := reachable_threeState
  have active : threeState.activeWindow = some ⟨1, 3⟩ := by decide +kernel
  have managed : threeState.Managed ⟨1, 2⟩ := by decide +kernel
  have tried : threeState.siblingsTried ⟨1, 3⟩ List.reverse = [⟨1, 2⟩, ⟨1, 1⟩] := by decide +kernel
  obtain ⟨u, run⟩ := select_threeState
  revert reached active managed tried run
  generalize threeState = s
  intro reached active managed tried run
  have coherent : s.Coherent := (reached.mono fun _ _ h => h.1).coherent
  have integrity := coherent.integrity
  obtain ⟨-, back, -, n, returns⟩ := cycling_progresses integrity
    reached.acyclic_of_linkless.acyclic.2 coherent.synced active managed rfl (by decide)
    ⟨12, _, u, run, by decide⟩
  refine ⟨n, fun fuel le => ?_⟩
  obtain ⟨-, t, run'⟩ := returns fuel le
  have picks := ((ensures_selectActiveWindow integrity
    ((integrity.live _).mpr managed)).returned run).1
  obtain ⟨y, now, other⟩ := (back fuel t run').mpr fun first => by
    rw [tried] at first
    cases first with
    | stops nothing => exact absurd (picks.det nothing) (by simp)
    | back again => exact absurd (picks.det again) (by simp)
  exact ⟨t, y, run', now, other⟩

/-- Forwards, the minimized window comes first: nothing is found there, and the next one is not
tried any more. -/
theorem cycling_progresses_fails :
    ¬∀ (s : Model) prev v, s.Integrity → s.Acyclic → s.Synced → s.activeWindow = some prev →
      s.Managed v → v.application = prev.application → v ≠ prev →
      (∃ fuel x u, selectActiveWindow fuel (some v) s = .returned (some x) u ∧ x ≠ prev) →
      ∀ fuel t, focusNextWithinApplication fuel s = .returned () t →
        ∃ y, t.activeWindow = some y ∧ y ≠ prev := by
  intro claim
  have coherent : threeState.Coherent := (reachable_threeState.mono fun _ _ h => h.1).coherent
  have stuck : (focusNextWithinApplication 12 threeState).returned?.map (·.activeWindow) =
      some (some ⟨1, 3⟩) := by decide +kernel
  obtain ⟨t, run, active⟩ := Option.map_eq_some_iff.mp stuck
  obtain ⟨_, run⟩ := Outcome.returned?_eq_some.mp run
  obtain ⟨u, select⟩ := select_threeState
  obtain ⟨y, now, other⟩ := claim threeState ⟨1, 3⟩ ⟨1, 2⟩ coherent.integrity
    reachable_threeState.acyclic_of_linkless.acyclic.2 coherent.synced (by decide +kernel)
    (by decide +kernel) rfl (by decide) ⟨12, _, u, select, by decide⟩ 12 t run
  rw [active] at now
  exact other (Option.some.inj now).symm

end Miral
