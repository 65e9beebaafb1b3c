import Miral.Reachability
import Miral.Coherence

/-! The focus stays in the workspaces of the window that loses it by being closed or hidden:
the cascades try every candidate there before any other, and a search that starts in a tree
ends in that tree. -/
namespace Miral

open Program Prog Forest Model

namespace Model

variable {s t : Model} {w v x : Window} {info : WindowInfo} {value : WindowState}
  {ws : List Window} {workspaces : List Workspace}

def IsIn (s : Model) (w : Window) (workspaces : List Workspace) : Prop :=
  ∃ k ∈ workspaces, k ∈ s.workspacesContaining w

theorem Picks.isIn (integrity : s.Integrity) (uniform : s.grove.Uniform)
    (picks : s.Picks w (some x)) (start : s.IsIn w workspaces) : s.IsIn x workspaces := by
  obtain ⟨k, listed, member⟩ := start
  exact ⟨k, listed, (uniform.sameTree (picks.sameTree integrity x rfl) k).mp member⟩

theorem FirstPick.isIn {front back : List Window} {r : Option Window} (integrity : s.Integrity)
    (uniform : s.grove.Uniform) (search : s.FirstPick (front ++ back) r)
    (inside : ∀ c ∈ front, s.IsIn c workspaces) (member : v ∈ front)
    (picks : s.Picks v (some x)) : ∃ y, r = some y ∧ s.IsIn y workspaces := by
  rcases search.of_append with ⟨y, eq, found⟩ | ⟨missed, -⟩
  · obtain ⟨c, listed, picked⟩ := found.picked y rfl
    exact ⟨y, eq, picked.isIn integrity uniform (inside c listed)⟩
  · exact absurd ((missed.missed_all v member).det picks) (by simp)

theorem Dropped.uniform (dropped : Dropped w s t) (uniform : s.grove.Uniform) :
    t.grove.Uniform := by
  intro v p link k
  have parent : t.parentOf v = some p := link
  rw [dropped.parentOf] at parent
  split at parent
  · contradiction
  · rename_i apart
    simp only [not_or] at apart
    have other : p ≠ w := by
      rintro rfl
      exact apart.2 parent
    change k ∈ t.workspacesContaining v ↔ k ∈ t.workspacesContaining p
    rw [dropped.workspacesContaining apart.1, dropped.workspacesContaining other]
    exact uniform v p parent k

end Model

variable {s t : Model} {w v x : Window} {info : WindowInfo} {value : WindowState} {fuel : Nat}

/-- Closing the active window, if some window of its workspaces can take the focus then. -/
theorem ensures_removeActive (integrity : s.Integrity) (uniform : s.grove.Uniform)
    (synced : s.Synced) (active : s.activeWindow = some w) (recent : v ∈ s.mruActiveWindows)
    (other : v ≠ w) (seen : s.visible v) (shared : s.IsIn v (s.workspacesContaining w))
    (picks : ∀ d, dropWindow w.application w s = .returned () d → ∃ x, d.Picks v (some x)) :
    (removeWindow fuel w.application w).Ensures s
      (fun _ t => ∃ x, t.activeWindow = some x ∧ t.IsIn x (s.workspacesContaining w))
      (fun _ _ => False) (s.Short fuel) := by
  obtain ⟨info, here⟩ := managed_iff.mp (integrity.managed_active active)
  rw [removeWindow, ensures_bind, ensures_infoFor_here here]
  rw [ensures_bind, ensures_state]
  apply (ensures_dropWindow integrity here).traced.bind
  intro _ d after
  rcases after with ⟨run, dropped⟩
  rw [ensures_onlyIf]
  refine ⟨fun _ => ?_, fun inactive => absurd active inactive⟩
  have integrity' := dropped.integrity integrity
  have uniform' := dropped.uniform uniform
  have synced' := dropped.synced synced
  have same (c : Window) (ne : c ≠ w) (inside : s.IsIn c (s.workspacesContaining w)) :
      d.IsIn c (s.workspacesContaining w) := by
    obtain ⟨k, listed, member⟩ := inside
    exact ⟨k, listed, by rwa [dropped.workspacesContaining ne]⟩
  -- The front part of the cascade: the parent, and what shares a workspace.
  have cascade {r : Option Window}
      (search : d.FirstPick (d.fallbacks w.application info.parent (s.workspacesContaining w)) r) :
      ∃ y, r = some y ∧ d.IsIn y (s.workspacesContaining w) := by
    rw [fallbacks, ← List.append_assoc, ← List.append_assoc] at search
    obtain ⟨x, picked⟩ := picks d run
    refine search.isIn integrity' uniform' ?_ ?_ picked
    · intro c listed
      rw [List.mem_append, List.mem_append] at listed
      rcases listed with (parent | own) | any
      · obtain ⟨link, live⟩ := lock_eq_some.mp (Option.mem_toList.mp parent)
        have ne := (dropped.live.mp live).1
        obtain ⟨k, listed, member⟩ := shared
        refine same c ne ⟨k, listed, ?_⟩
        exact (uniform w c ((parentOf_eq here).trans link) k).mp listed
      · have admits := (mem_candidates.mp own).2.2
        simp only [Bool.decide_and, Bool.and_eq_true, decide_eq_true_eq] at admits
        exact sharesWorkspace_iff.mp admits.2
      · exact sharesWorkspace_iff.mp (mem_candidates.mp any).2.2
    · rw [List.mem_append]
      refine .inr (mem_candidates.mpr ⟨?_, ?_, sharesWorkspace_iff.mpr (same v other shared)⟩)
      · simpa [dropped.mru, other] using recent
      · simpa [dropped.visible, other] using seen
  refine ensures_refocus integrity' (Short.cut fun _ => dropped.fewer) ?_ ?_
  · rintro x u search ⟨raised, -, rfl⟩
    obtain ⟨y, eq, inside⟩ := cascade search
    obtain rfl := Option.some.inj eq
    exact ⟨x, activeWindow_focusOn (search.focusable.visible synced'), inside⟩
  · intro missed
    obtain ⟨y, eq, -⟩ := cascade missed
    contradiction

/-- Hiding or minimizing the active window, if some window of its workspaces can take the
focus then. -/
theorem ensures_hideActive (integrity : s.Integrity) (uniform : s.grove.Uniform)
    (synced : s.Synced) (active : s.activeWindow = some w) (here : s.info? w = some info)
    (concealed : value.concealed) (recent : v ∈ s.mruActiveWindows) (other : v ≠ w)
    (seen : s.visible v) (shared : s.IsIn v (s.workspacesContaining w))
    (picks : (s.entered w info value).Picks v (some x)) :
    (setState fuel w value).Ensures s
      (fun _ t => ∃ x, t.activeWindow = some x ∧ t.IsIn x (s.workspacesContaining w))
      (fun _ _ => False) (s.Short fuel) := by
  have shown := activeWindow_visible active
  have changed : info.state ≠ value := by
    rintro rfl
    obtain ⟨surface, drawn⟩ := live_iff.mp (visible_live shown)
    have state : some info.state = some surface.state :=
      (stateOf_eq here).symm.trans (synced w surface drawn)
    simp [Model.visible, drawn, ← Option.some.inj state, concealed] at shown
  have entered := integrity.entered here value
  have workspaces (c : Window) :
      (s.entered w info value).workspacesContaining c = s.workspacesContaining c := by
    rw [Model.entered, markFullscreen_eq]
    rfl
  have uniform' : (s.entered w info value).grove.Uniform := by
    intro c p link k
    change k ∈ (s.entered w info value).workspacesContaining c ↔
      k ∈ (s.entered w info value).workspacesContaining p
    rw [workspaces, workspaces]
    exact uniform c p ((parentOf_entered here).symm.trans link) k
  refine ensures_setState here (fun same => absurd same changed) (fun _ _ => ?_)
    (fun _ visible _ => absurd concealed visible) (fun _ visible => absurd concealed visible)
  rw [ensures_onlyIf]
  refine ⟨fun _ => ?_, fun inactive => absurd active inactive⟩
  apply (ensures_moveFocusFrom_entered integrity synced here concealed active).imp ?_
  intro _ t after
  rcases after with ⟨r, search, selected, -⟩
  -- The front part of the cascade: the window itself, and what shares a workspace.
  rw [hideFallbacks, ← List.cons_append] at search
  obtain ⟨y, rfl, inside⟩ : ∃ y, r = some y ∧
      (s.entered w info value).IsIn y (s.workspacesContaining w) := by
    refine search.isIn entered uniform' ?_ ?_ picks
    · intro c listed
      rcases List.mem_cons.mp listed with rfl | listed
      · obtain ⟨k, member, -⟩ := shared
        exact ⟨k, member, by rwa [workspaces]⟩
      · have admits := (mem_candidates.mp listed).2.2
        simp only [ne_eq, Bool.decide_and, Bool.and_eq_true, decide_eq_true_eq] at admits
        rw [← workspaces]
        exact sharesWorkspace_iff.mp admits.2
    · refine List.mem_cons_of_mem _ (mem_candidates.mpr ⟨?_, visible_entered.trans seen, ?_⟩)
      · rwa [mru_entered]
      obtain ⟨k, listed, member⟩ := shared
      simp only [ne_eq, other, not_false_eq_true, true_and, decide_eq_true_eq]
      refine sharesWorkspace_iff.mpr ⟨k, ?_, ?_⟩
      · rwa [workspaces]
      · rwa [workspaces]
  obtain ⟨raised, -, rfl⟩ := selected y rfl
  obtain ⟨ne, seen'⟩ := visible_of_focusable_entered synced concealed search.focusable
  refine ⟨y, ?_, ?_⟩
  · apply activeWindow_concat mru_drawn
    rw [visible_drawn ne]
    have sight : (s.entered w info value).visible y = true := visible_entered.trans seen'
    exact sight
  · obtain ⟨k, listed, member⟩ := inside
    refine ⟨k, listed, ?_⟩
    rw [sameStructure_drawn.workspacesContaining]
    exact member

/-- When the active window is closed, hidden or minimized and another visible window of its
workspaces could take the focus then, some window of its workspaces has the focus after. -/
theorem focus_stays_in_workspace (integrity : s.Integrity) (acyclic : s.Acyclic)
    (whole : ∀ a b, SameTree s.parentOf a b → ∀ k,
      k ∈ s.workspacesContaining a ↔ k ∈ s.workspacesContaining b)
    (synced : s.Synced) (active : s.activeWindow = some w) (recent : v ∈ s.mruActiveWindows)
    (other : v ≠ w) (seen : s.visible v) (shared : s.IsIn v (s.workspacesContaining w)) :
    ((∃ d fuel x u, dropWindow w.application w s = .returned () d ∧
        selectActiveWindow fuel (some v) d = .returned (some x) u) →
      ∃ n, ∀ fuel ≥ n, ∃ t x, removeWindow fuel w.application w s = .returned () t ∧
        t.activeWindow = some x ∧ t.IsIn x (s.workspacesContaining w)) ∧
    ∀ value info, value.concealed → s.info? w = some info →
      (∃ fuel x u, selectActiveWindow fuel (some v) (s.entered w info value) =
        .returned (some x) u) →
      ∃ n, ∀ fuel ≥ n, ∃ t x, setState fuel w value s = .returned () t ∧
        t.activeWindow = some x ∧ t.IsIn x (s.workspacesContaining w) := by
  have uniform : s.grove.Uniform := fun c p link k => whole c p (.rel _ _ link) k
  obtain ⟨n, enough⟩ := acyclic.enough
  constructor
  · rintro ⟨d, fuel₀, x, u, dropping, selecting⟩
    have picks (d' : Model) (run : dropWindow w.application w s = .returned () d') :
        ∃ x, d'.Picks v (some x) := by
      obtain ⟨info, here⟩ := managed_iff.mp (integrity.managed_active active)
      have drops : (dropWindow w.application w).Ensures s _ _ True :=
        ensures_dropWindow integrity here
      have dropped := drops.returned run
      have live : d'.Live v := dropped.live.mpr ⟨other, visible_live seen⟩
      obtain rfl := (Outcome.returned.inj (dropping.symm.trans run)).2
      obtain ⟨picks, -⟩ :=
        (ensures_selectActiveWindow (dropped.integrity integrity) live).returned selecting
      exact ⟨x, picks⟩
    refine ⟨n, fun fuel le => ?_⟩
    have removing : (removeWindow fuel w.application w).Ensures s _ _ _ :=
      ensures_removeActive integrity uniform synced active recent other seen shared picks
    obtain ⟨_, t, run, y, now, inside⟩ := removing.returns (enough fuel le)
    exact ⟨t, y, run, now, inside⟩
  · rintro value info concealed here ⟨fuel₀, x, u, selecting⟩
    have entered := integrity.entered here value
    have live : (s.entered w info value).Live v := by
      simpa [Live] using visible_live seen
    obtain ⟨picks, -⟩ := (ensures_selectActiveWindow entered live).returned selecting
    refine ⟨n, fun fuel le => ?_⟩
    have concealing : (setState fuel w value).Ensures s _ _ _ :=
      ensures_hideActive integrity uniform synced active here concealed recent other seen shared
        picks
    obtain ⟨_, t, run, y, now, inside⟩ := concealing.returns (enough fuel le)
    exact ⟨t, y, run, now, inside⟩

theorem Model.whole_of_uniform (uniform : s.grove.Uniform) (a b : Window)
    (same : SameTree s.parentOf a b) (k : Workspace) :
    k ∈ s.workspacesContaining a ↔ k ∈ s.workspacesContaining b :=
  uniform.sameTree same k

/-- The active window is closed, or minimized. -/
theorem focus_stays_in_workspace_pair :
    (∃ n, ∀ fuel ≥ n, ∃ t x, removeWindow fuel 1 ⟨1, 2⟩ pairState = .returned () t ∧
      t.activeWindow = some x ∧ t.IsIn x (pairState.workspacesContaining ⟨1, 2⟩)) ∧
    ∃ n, ∀ fuel ≥ n, ∃ t x, setState fuel ⟨1, 2⟩ .minimized pairState = .returned () t ∧
      t.activeWindow = some x ∧ t.IsIn x (pairState.workspacesContaining ⟨1, 2⟩) := by
  obtain ⟨integrity, acyclic⟩ := reachable_pairState.acyclic_of_linkless.acyclic
  have uniform := reachable_pairState.uniform_of_linkless.uniform.2
  have coherent := (reachable_pairState.mono fun _ _ h => h.1).coherent
  have run : ((dropWindow 1 ⟨1, 2⟩ pairState).returned?.bind fun d =>
      (selectActiveWindow 12 (some ⟨1, 1⟩) d).value?) = some (some ⟨1, 1⟩) := by decide +kernel
  obtain ⟨d, ended, value⟩ := Option.bind_eq_some_iff.mp run
  obtain ⟨_, dropping⟩ := Outcome.returned?_eq_some.mp ended
  obtain ⟨u, selecting⟩ := Outcome.value?_eq_some.mp value
  have hidden : ((pairState.info? ⟨1, 2⟩).bind fun info => (selectActiveWindow 12 (some ⟨1, 1⟩)
      (pairState.entered ⟨1, 2⟩ info .minimized)).value?) = some (some ⟨1, 1⟩) := by
    decide +kernel
  obtain ⟨info, here, value'⟩ := Option.bind_eq_some_iff.mp hidden
  obtain ⟨u', selecting'⟩ := Outcome.value?_eq_some.mp value'
  have stays := focus_stays_in_workspace (v := ⟨1, 1⟩) integrity acyclic
    (whole_of_uniform uniform) coherent.synced (w := ⟨1, 2⟩)
    (by decide +kernel) (by decide +kernel) (by decide) (by decide +kernel)
    ⟨7, by decide +kernel, by decide +kernel⟩
  exact ⟨stays.1 ⟨d, 12, ⟨1, 1⟩, u, dropping, selecting⟩,
    stays.2 .minimized info rfl here ⟨12, ⟨1, 1⟩, u', selecting'⟩⟩

end Miral
