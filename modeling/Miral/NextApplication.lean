import Miral.FocusStays
import Miral.StateFocus
import Miral.Library.Lap

/-! Switching to the next application. Over a focus controller that keeps the sessions in a
ring, the loop of `focus_next_application` ends within one lap: it comes by the session of
the active window, and the search there finds at least that window. -/
namespace Miral

open Program Prog Forest Model

def sessionsOf (surfaces : List Window) : List Application :=
  (surfaces.map Window.application).dedup

/-- The session after the focused one, or the first one if the focused one has no surface. -/
def successorOf (sessions : List Application) : Option Application → Option Application
  | some a => if member : a ∈ sessions then some (sessions.next a member) else sessions.head?
  | none => sessions.head?

section Cyclic

variable {surfaces : List Window} {a : Application}

theorem mem_sessionsOf : a ∈ sessionsOf surfaces ↔ ∃ w ∈ surfaces, w.application = a := by
  simp [sessionsOf]

theorem successorOf_mem (nonempty : surfaces ≠ []) (focused : Option Application) :
    ∃ a ∈ sessionsOf surfaces, successorOf (sessionsOf surfaces) focused = some a := by
  have filled : sessionsOf surfaces ≠ [] := by
    obtain ⟨w, listed⟩ := List.exists_mem_of_ne_nil _ nonempty
    exact List.ne_nil_of_mem (mem_sessionsOf.mpr ⟨w, listed, rfl⟩)
  have first : ∃ a ∈ sessionsOf surfaces, (sessionsOf surfaces).head? = some a :=
    ⟨_, List.head_mem filled, List.head?_eq_some_head filled⟩
  cases focused with
  | none => exact first
  | some a =>
    by_cases member : a ∈ sessionsOf surfaces
    · exact ⟨_, List.next_mem .., dif_pos member⟩
    · simpa [successorOf, member] using first

theorem find_session (member : a ∈ sessionsOf surfaces) :
    ∃ w ∈ surfaces, surfaces.find? (fun w => some w.application = some a) = some w ∧
      w.application = a := by
  obtain ⟨w, listed, own⟩ := mem_sessionsOf.mp member
  cases found : surfaces.find? fun w => some w.application = some a with
  | none => simpa [own] using List.find?_eq_none.mp found w listed
  | some v => exact ⟨v, List.mem_of_find?_eq_some found, rfl, by simpa using List.find?_some found⟩

end Cyclic

/-- A focus controller that goes through the sessions that own a surface in turn. -/
def FocusController.cyclic : FocusController where
  nextSession surfaces focus :=
    match surfaces.find? fun w => some w.application =
      successorOf (sessionsOf surfaces) focus.session with
    | some w => ⟨some w.application, some w⟩
    | none => focus
  finds surfaces focus nonempty := by
    obtain ⟨a, member, next⟩ := successorOf_mem nonempty focus.session
    obtain ⟨w, listed, found, -⟩ := find_session member
    rw [next, found]
    exact ⟨w, listed, rfl⟩

namespace Model

variable {s t : Model} {prev w x : Window} {a : Application} {sessions : List Application}
  {workspaces : List Workspace} {session : Option Application} {r : Option Window}

/-- The focus controller keeps the sessions that own a surface in a ring, and moves from one
of them to its successor. -/
structure Ring (s : Model) (sessions : List Application) : Prop where
  nodup : sessions.Nodup
  owns : ∀ a, a ∈ sessions ↔ ∃ w, s.Live w ∧ w.application = a
  successor : ∀ focus a (member : a ∈ sessions), focus.session = some a →
    (s.focusController.nextSession s.scene.keys focus).session = some (sessions.next a member)

/-- The ring in the order in which `focus_next_session` goes through it: it starts with the
successor of the focused session, if that one is in the ring. -/
def lap (s : Model) (sessions : List Application) : List Application :=
  match s.nextFocus.focus.session with
  | some a => sessions.rotate (sessions.idxOf a)
  | none => []

/-- The visible MRU windows of a session in some of the workspaces, most recent first. -/
def sharing (s : Model) (workspaces : List Workspace) (session : Option Application) :
    List Window :=
  s.candidates fun s w => some w.application = session ∧ s.sharesWorkspace w workspaces

/-- `select_active_window` returns `x` for `w`. -/
def Activates (s : Model) (w x : Window) : Prop :=
  ∃ fuel u, selectActiveWindow fuel (some w) s = .returned (some x) u

theorem activates_iff (integrity : s.Integrity) (acyclic : s.Acyclic) (live : s.Live w) :
    s.Activates w x ↔ s.Picks w (some x) := by
  constructor
  · rintro ⟨fuel, u, run⟩
    exact ((ensures_selectActiveWindow integrity live).returned run).1
  · intro picks
    obtain ⟨n, enough⟩ := acyclic.enough
    obtain ⟨r, u, run, picks', -⟩ :=
      (ensures_selectActiveWindow integrity live).returns (enough n le_rfl)
    exact ⟨n, u, picks.det picks' ▸ run⟩

theorem ring_cyclic (cyclic : s.focusController = .cyclic) : s.Ring (sessionsOf s.scene.keys) where
  nodup := List.nodup_dedup _
  owns a := by
    rw [mem_sessionsOf]
    refine exists_congr fun w => and_congr_left fun _ => ?_
    rw [AList.mem_keys.symm, ← AList.lookup_isSome]
    rfl
  successor focus a member focused := by
    obtain ⟨w, -, found, own⟩ := find_session (List.next_mem _ a member)
    have next : successorOf (sessionsOf s.scene.keys) focus.session =
        some ((sessionsOf s.scene.keys).next a member) := by
      rw [focused]
      exact dif_pos member
    rw [cyclic, FocusController.cyclic]
    simp only [next, found, own]

namespace Ring

variable (ring : s.Ring sessions)

include ring

theorem next : s.nextFocus.Ring sessions := ⟨ring.nodup, ring.owns, ring.successor⟩

theorem mem (live : s.Live w) : w.application ∈ sessions :=
  (ring.owns _).mpr ⟨w, live, rfl⟩

theorem exists_lap (live : s.Live w) : ∃ a ∈ sessions, s.nextFocus.focus.session = some a ∧
    s.lap sessions = sessions.rotate (sessions.idxOf a) := by
  obtain ⟨v, there, eq⟩ := focus_nextFocus live
  have focused : s.nextFocus.focus.session = some v.application := congrArg Focus.session eq
  exact ⟨_, ring.mem there, focused, by rw [lap, focused]⟩

theorem lap_rotated (live : s.Live w) : sessions ~r s.lap sessions := by
  obtain ⟨a, -, -, lap⟩ := ring.exists_lap live
  exact ⟨_, lap.symm⟩

theorem lap_focused (live : s.Live w) (focused : s.focus.session = some a) (member : a ∈ sessions) :
    s.lap sessions = sessions.rotate (sessions.idxOf a + 1) := by
  obtain ⟨b, -, next, lap⟩ := ring.exists_lap live
  have successor := ring.successor s.focus a member focused
  obtain rfl : b = sessions.next a member := Option.some.inj (next.symm.trans successor)
  have inside : sessions.idxOf a < sessions.length := List.idxOf_lt_length_of_mem member
  have follows := List.next_getElem sessions ring.nodup (sessions.idxOf a) inside
  simp only [List.getElem_idxOf] at follows
  rw [lap, follows, ring.nodup.idxOf_getElem, List.rotate_mod]

theorem session_iterate (live : s.Live w) {k : Nat} (inside : k < (s.lap sessions).length) :
    (nextFocus^[k + 1] s).focus.session = some (s.lap sessions)[k] := by
  obtain ⟨a, member, focused, lap⟩ := ring.exists_lap live
  have place : sessions.idxOf a < sessions.length := List.idxOf_lt_length_of_mem member
  have start : s.nextFocus.focus.session = sessions[sessions.idxOf a]? := by
    rw [focused, List.getElem?_idxOf member]
  have keeps (t : Model) (ring : t.Ring sessions) : t.nextFocus.Ring sessions := ring.next
  have step (t : Model) (b : Application) (listed : b ∈ sessions) (ring : t.Ring sessions)
      (here : t.focus.session = some b) :
      t.nextFocus.focus.session = some (sessions.next b listed) :=
    ring.successor t.focus b listed here
  have round := Lap.iterate_next ring.nodup keeps step ring.next start place k
  have short : k < sessions.length := by
    rwa [lap, List.length_rotate] at inside
  rw [← List.getElem?_eq_getElem inside, Function.iterate_succ_apply, round, lap,
    List.getElem?_rotate short, Nat.add_comm]

end Ring

theorem nextFocus_iterate (k : Nat) : nextFocus^[k] s =
    { s with focus := (nextFocus^[k] s).focus, log := (nextFocus^[k] s).log } := by
  induction k with
  | zero => rfl
  | succ k ih =>
    rw [Function.iterate_succ_apply', nextFocus, ih]
    rfl

theorem activeWindow_passed {k : Nat} {raised : List Event} (seen : s.visible x) :
    ((nextFocus^[k] s).focusOn x raised).activeWindow = some x := by
  apply activeWindow_focusOn
  rw [nextFocus_iterate]
  exact seen

theorem isIn_passed {k : Nat} {raised : List Event} (inside : s.IsIn x workspaces) :
    ((nextFocus^[k] s).focusOn x raised).IsIn x workspaces := by
  rw [nextFocus_iterate]
  exact inside

def Offered (s : Model) (workspaces : List Workspace) (session : Option Application) : Prop :=
  ∃ w ∈ s.sharing workspaces session, ∃ x, s.Picks w (some x)

theorem FirstPick.offered (search : s.FirstPick (s.sharing workspaces session) r) :
    s.Offered workspaces session ↔ ∃ x, r = some x := by
  constructor
  · rintro ⟨w, member, x, picks⟩
    rw [← Option.ne_none_iff_exists']
    rintro rfl
    exact absurd (picks.det (search.missed_all w member)) (by simp)
  · rintro ⟨x, eq⟩
    obtain ⟨w, member, picks⟩ := search.picked x eq
    exact ⟨w, member, x, picks⟩

theorem offered_iff (integrity : s.Integrity) (acyclic : s.Acyclic) :
    s.Offered workspaces session ↔ ∃ w ∈ s.sharing workspaces session, ∃ x, s.Activates w x := by
  have same (w : Window) (member : w ∈ s.sharing workspaces session) (x : Window) :
      s.Activates w x ↔ s.Picks w (some x) :=
    activates_iff integrity acyclic (visible_live (mem_candidates.mp member).2.1)
  constructor
  · rintro ⟨w, member, x, picks⟩
    exact ⟨w, member, x, (same w member x).mpr picks⟩
  · rintro ⟨w, member, x, activates⟩
    exact ⟨w, member, x, (same w member x).mp activates⟩

theorem alike_nextFocus : Alike s.nextFocus s := .of_same (fun _ => rfl) fun _ => rfl

theorem Offered.of_next (offered : s.nextFocus.Offered workspaces session) :
    s.Offered workspaces session := by
  obtain ⟨w, member, x, picks⟩ := offered
  exact ⟨w, member, x, alike_nextFocus.picks picks⟩

theorem Offered.next (offered : s.Offered workspaces session) :
    s.nextFocus.Offered workspaces session := by
  obtain ⟨w, member, x, picks⟩ := offered
  have alike : Alike s s.nextFocus := .of_same (fun _ => rfl) fun _ => rfl
  exact ⟨w, member, x, alike.picks picks⟩

end Model

open Model

variable {s t : Model} {prev w x : Window} {a : Application} {sessions : List Application}
  {workspaces : List Workspace} {fuel : Nat}

/-- The loop stops at the first session that is offered a window, if it does not come by the
session of `prev` before. -/
theorem ensures_focusNextInWorkspace {k : Nat} (fuel : Nat) (integrity : s.Integrity)
    (missed : ∀ j < k, (nextFocus^[j + 1] s).focus.session ≠ some prev.application ∧
      ¬s.Offered workspaces (nextFocus^[j + 1] s).focus.session)
    (offered : s.Offered workspaces (nextFocus^[k + 1] s).focus.session) :
    (focusNextInWorkspace prev workspaces fuel).Ensures s
      (fun found t => found = true ∧ ∃ x,
        s.FirstPick (s.sharing workspaces (nextFocus^[k + 1] s).focus.session) (some x) ∧
        (nextFocus^[k + 1] s).Selected (some x) t)
      (fun _ _ => False) (∀ d, s.DepthBelow d → fuel < 4 * d + k + 1) := by
  induction fuel generalizing s k with
  | zero =>
    intro d _
    omega
  | succ fuel ih =>
    rw [focusNextInWorkspace, ensures_bind, focusNextSession, ensures_update, ensures_bind,
      ensures_state, ensures_bind]
    change Ensures _ s.nextFocus _ _ _
    have next : s.nextFocus.Integrity :=
      integrity.sameStructure sameStructure_nextFocus integrity.mru
    apply (searches_enumerateIf next _).mono ?_ (fun _ _ h => h) ?_
    · intro r t after
      rcases after with ⟨search, selected⟩
      have here : s.FirstPick (s.sharing workspaces s.nextFocus.focus.session) r :=
        alike_nextFocus.firstPick search
      cases r with
      | some x =>
        cases k with
        | zero => exact ⟨rfl, x, here, selected⟩
        | succ k => exact absurd (here.offered.mpr ⟨x, rfl⟩) (missed 0 (Nat.succ_pos k)).2
      | none =>
        obtain rfl : t = s.nextFocus := selected
        cases k with
        | zero =>
          obtain ⟨x, eq⟩ := here.offered.mp offered
          contradiction
        | succ k =>
          have passed : s.nextFocus.focus.session ≠ some prev.application :=
            (missed 0 (Nat.succ_pos k)).1
          rw [ensures_bind, ensures_state, if_pos passed]
          have others (j : Nat) (lt : j < k) :
              (nextFocus^[j + 1] s.nextFocus).focus.session ≠ some prev.application ∧
                ¬s.nextFocus.Offered workspaces (nextFocus^[j + 1] s.nextFocus).focus.session := by
            obtain ⟨other, none⟩ := missed (j + 1) (Nat.succ_lt_succ lt)
            exact ⟨other, fun offered => none offered.of_next⟩
          apply (ih next others offered.next).mono ?_ (fun _ _ h => h) ?_
          · intro found t after
            rcases after with ⟨rfl, x, search, selected⟩
            exact ⟨rfl, x, alike_nextFocus.firstPick search, selected⟩
          · intro short d bound
            have := short d bound
            omega
    · intro short d bound
      have := short d bound
      omega

/-- The loop ends within one lap: it comes by the session of the active window at the latest. -/
theorem exists_offered (ring : s.Ring sessions) (active : s.activeWindow = some prev)
    (shared : s.workspacesContaining prev ≠ []) (picks : s.Picks prev (some x)) :
    ∃ k, ∃ inside : k < (s.lap sessions).length,
      s.Offered (s.workspacesContaining prev) (some (s.lap sessions)[k]) ∧
        ∀ j (lt : j < k), (s.lap sessions)[j] ≠ prev.application ∧
          ¬s.Offered (s.workspacesContaining prev) (some (s.lap sessions)[j]) := by
  classical
  have live := visible_live (activeWindow_visible active)
  have own : s.Offered (s.workspacesContaining prev) (some prev.application) := by
    obtain ⟨k, member⟩ := List.exists_mem_of_ne_nil _ shared
    have shares := sharesWorkspace_iff.mpr ⟨k, member, member⟩
    refine ⟨prev, mem_candidates.mpr ⟨activeWindow_mem active, activeWindow_visible active, ?_⟩,
      x, picks⟩
    simpa using shares
  have listed : prev.application ∈ s.lap sessions :=
    (ring.lap_rotated live).mem_iff.mp (ring.mem live)
  let met (a : Application) : Bool := s.Offered (s.workspacesContaining prev) (some a)
  have inside : (s.lap sessions).findIdx met < (s.lap sessions).length :=
    List.findIdx_lt_length_of_exists ⟨_, listed, by simpa [met] using own⟩
  refine ⟨_, inside, by simpa [met] using List.findIdx_getElem (w := inside), ?_⟩
  intro j lt
  have missed : ¬s.Offered (s.workspacesContaining prev) (some (s.lap sessions)[j]) := by
    simpa [met] using List.not_of_lt_findIdx lt
  refine ⟨?_, missed⟩
  intro eq
  exact missed (eq ▸ own)

/-- With enough fuel the loop returns, from the first session of the lap that is offered a
window. -/
theorem focusNextInWorkspace_lap (integrity : s.Integrity) (acyclic : s.Acyclic)
    (ring : s.Ring sessions) (active : s.activeWindow = some prev)
    (shared : s.workspacesContaining prev ≠ []) (picks : s.Picks prev (some x)) :
    let workspaces := s.workspacesContaining prev
    ∃ k, ∃ inside : k < (s.lap sessions).length,
      s.Offered workspaces (some (s.lap sessions)[k]) ∧
      (∀ j (_ : j < k), ¬s.Offered workspaces (some (s.lap sessions)[j])) ∧
      ∃ y, s.FirstPick (s.sharing workspaces (some (s.lap sessions)[k])) (some y) ∧
        ∃ n, ∀ fuel ≥ n, ∃ t, focusNextInWorkspace prev workspaces fuel s = .returned true t ∧
          (nextFocus^[k + 1] s).Selected (some y) t := by
  intro workspaces
  have live := visible_live (activeWindow_visible active)
  obtain ⟨k, inside, here, earlier⟩ := exists_offered ring active shared picks
  have session (j : Nat) (le : j ≤ k) : (nextFocus^[j + 1] s).focus.session =
      some (s.lap sessions)[j] := ring.session_iterate live (le.trans_lt inside)
  have missed (j : Nat) (lt : j < k) : (nextFocus^[j + 1] s).focus.session ≠
      some prev.application ∧ ¬s.Offered workspaces (nextFocus^[j + 1] s).focus.session := by
    rw [session j lt.le]
    exact ⟨fun eq => (earlier j lt).1 (Option.some.inj eq), (earlier j lt).2⟩
  have loop (fuel : Nat) := ensures_focusNextInWorkspace fuel integrity missed
    (by rwa [session k le_rfl])
  rw [session k le_rfl] at loop
  obtain ⟨d, bound⟩ := acyclic.exists_depth
  have enough (fuel : Nat) (le : 4 * d + k + 1 ≤ fuel) :
      ¬∀ d, s.DepthBelow d → fuel < 4 * d + k + 1 := by
    intro short
    exact absurd (short d bound) (Nat.not_lt.mpr le)
  obtain ⟨_, _, -, -, y, search, -⟩ := (loop _).returns (enough _ le_rfl)
  refine ⟨k, inside, here, fun j lt => (earlier j lt).2, y, search, 4 * d + k + 1, ?_⟩
  intro fuel le
  obtain ⟨_, t, run, rfl, y', search', selected⟩ := (loop fuel).returns (enough fuel le)
  obtain rfl : y' = y := Option.some.inj (search'.det search)
  exact ⟨t, run, selected⟩

theorem activates_sharing (integrity : s.Integrity) (acyclic : s.Acyclic)
    (search : s.FirstPick (s.sharing workspaces (some a)) (some x)) :
    ∃ before w after, s.sharing workspaces (some a) = before ++ w :: after ∧
      (∀ v ∈ before, ∀ z, ¬s.Activates v z) ∧ s.Activates w x ∧ s.Picks w (some x) ∧
      w.application = a ∧ s.IsIn w workspaces := by
  obtain ⟨before, w, after, parts, none, picks⟩ := search.split
  have listed (v : Window) (member : v ∈ before ++ w :: after) :=
    mem_candidates.mp (parts ▸ member : v ∈ s.sharing workspaces (some a))
  have same (v : Window) (member : v ∈ before ++ w :: after) (z : Window) :
      s.Activates v z ↔ s.Picks v (some z) :=
    activates_iff integrity acyclic (visible_live (listed v member).2.1)
  obtain ⟨own, sharing⟩ : w.application = a ∧ s.sharesWorkspace w workspaces := by
    simpa using (listed w (by simp)).2.2
  refine ⟨before, w, after, parts, ?_, (same w (by simp) x).mpr picks, picks, own,
    sharesWorkspace_iff.mp sharing⟩
  intro v member z activates
  have found := (same v (by simp [member]) z).mp activates
  exact absurd (found.det (none v member)) (by simp)

theorem focusNextApplication_found (active : s.activeWindow = some prev)
    (shared : s.workspacesContaining prev ≠ [])
    (run : focusNextInWorkspace prev (s.workspacesContaining prev) fuel s = .returned true t) :
    focusNextApplication fuel s = .returned () t := by
  simp only [focusNextApplication, bind_run, Prog.state, active, if_pos shared, run]
  rfl

/-- Switching applications ends within one lap of the ring, without the fallback after the loop.
The focus goes to what `select_active_window` returns for a window of the first session in the
lap that has one to activate in the workspaces of the active window, and stays in these. -/
theorem focus_next_application_one_lap (integrity : s.Integrity) (acyclic : s.Acyclic)
    (whole : ∀ a b, SameTree s.parentOf a b → ∀ k,
      k ∈ s.workspacesContaining a ↔ k ∈ s.workspacesContaining b)
    (synced : s.Synced) (ring : s.Ring sessions) (active : s.activeWindow = some prev)
    (shared : s.workspacesContaining prev ≠ []) (activates : s.Activates prev x) :
    let workspaces := s.workspacesContaining prev
    let offered (a : Application) := ∃ w ∈ s.sharing workspaces (some a), ∃ y, s.Activates w y
    (∀ a ∈ sessions, s.focus.session = some a →
      s.lap sessions = sessions.rotate (sessions.idxOf a + 1)) ∧
    ∃ k < sessions.length, ∃ a, (s.lap sessions)[k]? = some a ∧ offered a ∧
      (∀ j < k, ∀ b, (s.lap sessions)[j]? = some b → ¬offered b) ∧
      ∃ before w after y, s.sharing workspaces (some a) = before ++ w :: after ∧
        (∀ v ∈ before, ∀ z, ¬s.Activates v z) ∧ s.Activates w y ∧
        ((∀ v p, s.parentOf v = some p → v.application = p.application) → y.application = a) ∧
        ∃ n, ∀ fuel ≥ n, ∃ t raised, t = (nextFocus^[k + 1] s).focusOn y raised ∧
          focusNextInWorkspace prev workspaces fuel s = .returned true t ∧
          focusNextApplication fuel s = .returned () t ∧
          t.activeWindow = some y ∧ t.IsIn y workspaces := by
  intro workspaces offered
  have uniform : s.grove.Uniform := fun c p link k => whole c p (.rel _ _ link) k
  have live := visible_live (activeWindow_visible active)
  refine ⟨fun a member focused => ring.lap_focused live focused member, ?_⟩
  have picks := (activates_iff integrity acyclic live).mp activates
  obtain ⟨k, inside, here, earlier, y, search, n, returns⟩ :=
    focusNextInWorkspace_lap integrity acyclic ring active shared picks
  obtain ⟨before, w, after, parts, missed, found, picked, own, share⟩ :=
    activates_sharing integrity acyclic search
  refine ⟨k, (ring.lap_rotated live).perm.length_eq ▸ inside, _, List.getElem?_eq_getElem inside,
    (offered_iff integrity acyclic).mp here, ?_, before, w, after, y, parts, missed, found, ?_,
    n, ?_⟩
  · intro j lt b next offer
    rw [List.getElem?_eq_getElem (lt.trans inside)] at next
    apply earlier j lt
    rw [Option.some.inj next]
    exact (offered_iff integrity acyclic).mpr offer
  · intro alone
    have tree := picked.sameTree integrity y rfl
    rw [← own]
    exact (tree.congr (·.application = w.application) fun v p link => by rw [alone v p link]).mp rfl
  · intro fuel le
    obtain ⟨t, run, raised, -, rfl⟩ := returns fuel le
    refine ⟨_, raised, rfl, run, focusNextApplication_found active shared run, ?_, ?_⟩
    · exact activeWindow_passed (search.focusable.visible synced)
    · exact isIn_passed (picked.isIn integrity uniform share)

namespace Model

variable {c : FocusController}

def withController (s : Model) (c : FocusController) : Model := { s with focusController := c }

theorem sameStructure_withController : SameStructure s (s.withController c) :=
  ⟨fun _ => Iff.rfl, fun _ => Iff.rfl, fun _ => rfl, fun _ => rfl, fun _ => rfl, fun _ => rfl,
    rfl, rfl, rfl, rfl⟩

theorem ring_withController : (s.withController .cyclic).Ring (sessionsOf s.scene.keys) :=
  ring_cyclic rfl

theorem Integrity.withController (integrity : s.Integrity) : (s.withController c).Integrity :=
  integrity.sameStructure sameStructure_withController integrity.mru

theorem Acyclic.withController (acyclic : s.Acyclic) : (s.withController c).Acyclic := acyclic

theorem Synced.withController (synced : s.Synced) : (s.withController c).Synced := synced

theorem whole_withController (uniform : s.grove.Uniform) (a b : Window)
    (same : SameTree (s.withController c).parentOf a b) (k : Workspace) :
    k ∈ (s.withController c).workspacesContaining a ↔
      k ∈ (s.withController c).workspacesContaining b :=
  whole_of_uniform uniform a b same k

end Model

/-- Three applications with a window each; those of the first and the last are in a workspace. -/
def Op.ringRun : List Op :=
  [.addSession 1, .addSurface 1 { size := ⟨100, 80⟩ } 1, .postBuffer ⟨1, 1⟩,
    .handleWindowReady ⟨1, 1⟩, .addSession 2, .addSurface 2 { size := ⟨100, 80⟩ } 1,
    .postBuffer ⟨2, 1⟩, .handleWindowReady ⟨2, 1⟩, .addSession 3,
    .addSurface 3 { size := ⟨100, 80⟩ } 1, .postBuffer ⟨3, 1⟩, .handleWindowReady ⟨3, 1⟩,
    .createWorkspace 7, .addTreeToWorkspace (some ⟨1, 1⟩) 7, .addTreeToWorkspace (some ⟨3, 1⟩) 7]

def Model.ringState : Model :=
  (Op.follow 12 (fun s op => op.Contract s ∧ op.asksParent = false) Op.ringRun .start).get
    (by decide +kernel)

theorem reachable_ringState :
    Reachable (fun s op => op.Contract s ∧ op.asksParent = false) ringState :=
  (Reachable.initial _ _).follow (Option.some_get _).symm

theorem focus_next_application_one_lap_ring : ∃ y n, ∀ fuel ≥ n, ∃ t,
    focusNextApplication fuel (ringState.withController .cyclic) = .returned () t ∧
      t.activeWindow = some y ∧ t.IsIn y [7] := by
  obtain ⟨integrity, acyclic⟩ := reachable_ringState.acyclic_of_linkless.acyclic
  have uniform := reachable_ringState.uniform_of_linkless.uniform.2
  have coherent := (reachable_ringState.mono fun _ _ h => h.1).coherent
  let s := ringState.withController .cyclic
  have selects : (selectActiveWindow 12 (some ⟨3, 1⟩) s).value? = some (some ⟨3, 1⟩) := by
    decide +kernel
  obtain ⟨u, selecting⟩ := Outcome.value?_eq_some.mp selects
  have member : s.workspacesContaining ⟨3, 1⟩ = [7] := by decide +kernel
  have shared : s.workspacesContaining ⟨3, 1⟩ ≠ [] := member ▸ List.cons_ne_nil _ _
  have active : s.activeWindow = some ⟨3, 1⟩ := by decide +kernel
  obtain ⟨-, k, -, a, -, -, -, before, w, after, y, -, -, -, -, n, returns⟩ :=
    focus_next_application_one_lap integrity.withController acyclic.withController
      (whole_withController uniform) coherent.synced.withController ring_withController active
      shared ⟨12, u, selecting⟩
  refine ⟨y, n, fun fuel le => ?_⟩
  obtain ⟨t, raised, -, -, run, now, inside⟩ := returns fuel le
  exact ⟨t, run, now, member ▸ inside⟩

/-- Two applications with a window each in one workspace; that of the second has a dialog of the
first. -/
def Op.foreignRun : List Op :=
  [.addSession 1, .addSurface 1 { size := ⟨100, 80⟩ } 1, .postBuffer ⟨1, 1⟩,
    .handleWindowReady ⟨1, 1⟩, .addSession 2, .addSurface 2 { size := ⟨100, 80⟩ } 1,
    .postBuffer ⟨2, 1⟩, .handleWindowReady ⟨2, 1⟩,
    .addSurface 1 { size := ⟨30, 20⟩, type := some .dialog, parent := some ⟨2, 1⟩ } 2,
    .postBuffer ⟨1, 2⟩, .selectActiveWindow (some ⟨1, 1⟩),
    .createWorkspace 7, .addTreeToWorkspace (some ⟨1, 1⟩) 7, .addTreeToWorkspace (some ⟨2, 1⟩) 7]

def Model.foreignState : Model :=
  (Op.follow 12 (fun s op => op.Contract s ∧ op.asksParent = false) Op.foreignRun .start).get
    (by decide +kernel)

theorem reachable_foreignState :
    Reachable (fun s op => op.Contract s ∧ op.asksParent = false) foreignState :=
  (Reachable.initial _ _).follow (Option.some_get _).symm

/-- The dialog gets the focus, which belongs to the application that had it before. -/
theorem focus_next_application_one_lap_fails :
    ¬∀ (s : Model) sessions prev x (k : Nat) a fuel t, s.Integrity → s.Acyclic →
      (∀ a b, SameTree s.parentOf a b → ∀ k,
        k ∈ s.workspacesContaining a ↔ k ∈ s.workspacesContaining b) →
      s.Synced → s.Ring sessions → s.activeWindow = some prev →
      s.workspacesContaining prev ≠ [] → s.Activates prev x → (s.lap sessions)[k]? = some a →
      (∃ w ∈ s.sharing (s.workspacesContaining prev) (some a), ∃ y, s.Activates w y) →
      (∀ j < k, ∀ b, (s.lap sessions)[j]? = some b →
        ¬∃ w ∈ s.sharing (s.workspacesContaining prev) (some b), ∃ y, s.Activates w y) →
      focusNextApplication fuel s = .returned () t →
      ∃ y, t.activeWindow = some y ∧ y.application = a := by
  intro claim
  obtain ⟨integrity, acyclic⟩ := reachable_foreignState.acyclic_of_linkless.acyclic
  have uniform := reachable_foreignState.uniform_of_linkless.uniform.2
  have coherent := (reachable_foreignState.mono fun _ _ h => h.1).coherent
  let s := foreignState.withController .cyclic
  have selects : (selectActiveWindow 12 (some ⟨1, 1⟩) s).value? = some (some ⟨1, 1⟩) := by
    decide +kernel
  have turns : (selectActiveWindow 12 (some ⟨2, 1⟩) s).value? = some (some ⟨1, 2⟩) := by
    decide +kernel
  obtain ⟨u, selecting⟩ := Outcome.value?_eq_some.mp selects
  obtain ⟨v, turning⟩ := Outcome.value?_eq_some.mp turns
  have switched : (focusNextApplication 12 s).returned?.map (·.activeWindow) =
      some (some ⟨1, 2⟩) := by decide +kernel
  obtain ⟨t, ended, active⟩ := Option.map_eq_some_iff.mp switched
  obtain ⟨_, run⟩ := Outcome.returned?_eq_some.mp ended
  have first : (s.lap (sessionsOf foreignState.scene.keys))[0]? = some 2 := by decide +kernel
  have listed : ⟨2, 1⟩ ∈ s.sharing (s.workspacesContaining ⟨1, 1⟩) (some 2) := by decide +kernel
  obtain ⟨y, now, own⟩ := claim s _ ⟨1, 1⟩ ⟨1, 1⟩ 0 2 12 t integrity.withController
    acyclic.withController (whole_withController uniform) coherent.synced.withController
    ring_withController (by decide +kernel) (by decide +kernel) ⟨12, u, selecting⟩ first
    ⟨_, listed, _, 12, v, turning⟩ (by simp) run
  rw [active] at now
  rw [← Option.some.inj now] at own
  exact absurd own (by decide)

end Miral
