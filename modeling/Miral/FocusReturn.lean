import Miral.NearestActive
import Miral.SwitchBack

/-! Which window is active after a switch to another workspace and back. -/
namespace Miral

open Program Prog Forest Model

theorem find?_narrow {α : Type} {p q : α → Bool} {a : α} {xs : List α}
    (found : xs.find? p = some a) (sub : ∀ x ∈ xs, q x → p x) (is : q a) :
    xs.find? q = some a := by
  obtain ⟨-, before, after, eq, refused⟩ := List.find?_eq_some_iff_append.mp found
  refine List.find?_eq_some_iff_append.mpr ⟨is, before, after, eq, fun x member => ?_⟩
  have notP := refused x member
  have listed : x ∈ xs := by simp [eq, member]
  by_contra isQ
  simp [sub x listed (by simpa using isQ)] at notP

namespace Model

variable {s : Model} {w p : Window} {r : Option Window} {ws : List Window}

theorem dialogOf_isSome : (s.dialogOf p).isSome ↔
    ∃ c ∈ s.childrenOf p, s.typeOf c = some .dialog ∧ s.Focusable c := by
  cases here : s.info? p with
  | none => simp [dialogOf, childrenOf, here]
  | some info =>
    rw [dialogOf_eq here, childrenOf_eq here, firstDialog, List.find?_isSome]
    exact exists_congr fun c => and_congr_right fun _ => dialog_iff

/-- The search finds nothing if and only if nobody on the way up from any of the windows has
something to offer. -/
theorem FirstPick.none_iff (integrity : s.Integrity) (search : s.FirstPick ws r) :
    r = none ↔ ∀ w ∈ ws, ∀ p, Above s.parentOf p w → ¬s.Offers p := by
  constructor
  · rintro rfl w member p ⟨n, reached⟩
    rcases (search.missed_all w member).course integrity with ⟨_, _, -, some, -⟩ | ⟨-, none⟩
    · contradiction
    · exact none n p reached
  · intro quiet
    cases r with
    | none => rfl
    | some x =>
      obtain ⟨w, member, picks⟩ := search.picked x rfl
      rcases picks.course integrity with ⟨a, _, ⟨n, reached, offers, -⟩, -⟩ | ⟨none, -⟩
      · exact absurd offers (quiet w member a ⟨n, reached⟩)
      · contradiction

end Model

namespace Shell

variable {s t u : Shell} {w v a p : Window} {k k' : Workspace} {r : Option Window}

/-- The window, or a dialog of it, can be given the focus when the workspace is shown. -/
def OffersIn (s : Shell) (k : Workspace) (w : Window) : Prop :=
  (∃ c ∈ s.manager.childrenOf w, s.manager.typeOf c = some .dialog ∧ s.CanFocus k c) ∨
    s.CanFocus k w

/-- No window of the workspace that has had the focus leads to one that can be given it. -/
def Quiet (s : Shell) (k : Workspace) : Prop :=
  ∀ w ∈ s.manager.mruActiveWindows, s.seenIn k w → ∀ p, Above s.manager.parentOf p w →
    ¬s.OffersIn k p

/-- If the focus were given to one of the windows that are seen, the last that had it first, then
to `a`. -/
def Loyal (s : Shell) (a : Window) : Prop :=
  ∀ r, s.manager.FirstPick (s.manager.candidates fun _ _ => true) r → r = none ∨ r = some a

/-- The active window is active again, if it still is or the other workspace has no other; or the
focus returns to it. -/
def FocusComesBack (s : Shell) (k : Workspace) : Prop :=
  match s.manager.activeWindow with
  | some a => (s.manager.mruActiveWindows.reverse.find? (fun v => v = a || s.seenIn k v) = some a ∧
      s.Quiet k) ∨ s.Loyal a
  | none => (∃ w, ¬s.IsDecoration w ∧ s.seenIn k w ∧
      (s.activatable w ∨ w ∈ s.manager.mruActiveWindows)) ∨ ∀ w, ¬s.manager.Focusable w

namespace Assigned

variable (assigned : s.Assigned) (sound : s.Sound)

include assigned sound

theorem activeWindow_eq : s.manager.activeWindow =
    s.manager.mruActiveWindows.reverse.find? (s.seenIn s.activeWorkspace) := by
  refine List.find?_congr fun v member => Bool.eq_iff_iff.mpr ?_
  have listed := List.mem_reverse.mp member
  exact assigned.visible_iff sound (sound.furnished.coherent.integrity.mru v listed)
    (sound.furnished.idle v listed)

theorem offers_iff : s.manager.Offers p ↔ s.OffersIn s.activeWorkspace p := by
  rw [Offers, dialogOf_isSome, assigned.focusable_iff sound]
  simp only [assigned.focusable_iff sound, OffersIn]

theorem candidates_eq : s.manager.candidates (fun _ _ => true) =
    s.manager.mruActiveWindows.reverse.filter (s.seenIn s.activeWorkspace) := by
  refine List.filter_congr fun v member => Bool.eq_iff_iff.mpr ?_
  have listed := List.mem_reverse.mp member
  rw [Bool.and_true]
  exact assigned.visible_iff sound (sound.furnished.coherent.integrity.mru v listed)
    (sound.furnished.idle v listed)

theorem seenIn_apart (key : s.HasKey k) (key' : s.HasKey k') (ne : k ≠ k')
    (plain : ¬s.IsDecoration v) (seen : s.seenIn k v) : ¬s.seenIn k' v := fun seen' =>
  ne (assigned.unique (managed_of_seenIn sound seen) plain key key' (seenIn_iff.mp seen).1
    (seenIn_iff.mp seen').1)

theorem picks_none (undivided : s.Undivided k s.activeWorkspace)
    (member : (k, w) ∈ s.manager.workspacesToWindows) (plain : ¬s.IsDecoration w)
    (picks : s.manager.Picks w r) : r = none := by
  cases r with
  | none => rfl
  | some x =>
    have tree := picks.sameTree sound.furnished.coherent.integrity x rfl
    have can := (assigned.focusable_iff sound).mp (picks.focusable x rfl)
    exact absurd can (undivided w member plain w x (.inl rfl) tree)

end Assigned

namespace Crossed

variable (crossed : s.Crossed k u)

include crossed

theorem seenIn (plain : ¬s.IsDecoration v) : u.seenIn k' v = s.seenIn k' v := by
  rw [Shell.seenIn, Shell.seenIn, crossed.presentable v plain]
  exact congrArg (fun pairs => decide ((k', v) ∈ pairs) && _) crossed.steady.pairs

theorem canFocus : u.CanFocus k' v ↔ s.CanFocus k' v := by
  have activates : u.activatable v = s.activatable v := crossed.steady.activatable
  have kind : u.IsDecoration v ↔ s.IsDecoration v := crossed.steady.isDecoration
  rw [CanFocus, CanFocus, activates, kind]
  by_cases plain : s.IsDecoration v
  · simp [plain]
  · rw [crossed.seenIn plain]

theorem offersIn : u.OffersIn k' p ↔ s.OffersIn k' p := by
  have children : u.manager.childrenOf p = s.manager.childrenOf p := crossed.steady.children p
  have types (c : Window) : u.manager.typeOf c = s.manager.typeOf c := crossed.steady.types c
  simp only [OffersIn, children, types, crossed.canFocus]

theorem undivided {k₁ k₂ : Workspace} (undivided : s.Undivided k₁ k₂) : u.Undivided k₁ k₂ := by
  have kind (v : Window) : u.IsDecoration v ↔ s.IsDecoration v := crossed.steady.isDecoration
  have titlebar : u.titlebar = s.titlebar := crossed.steady.titlebar
  have parents : u.manager.parentOf = s.manager.parentOf := crossed.steady.parentOf
  have pairs : u.manager.workspacesToWindows = s.manager.workspacesToWindows :=
    crossed.steady.pairs
  intro w member plain v x bar tree
  rw [pairs] at member
  rw [kind] at plain
  rw [titlebar] at bar
  rw [parents] at tree
  rw [crossed.canFocus]
  exact undivided w member plain v x bar tree

theorem listed (member : v ∈ u.manager.mruActiveWindows.reverse) :
    u.seenIn k' v = s.seenIn k' v :=
  crossed.seenIn (mt crossed.steady.isDecoration.mpr
    (crossed.settled.furnished.idle v (List.mem_reverse.mp member)))

theorem activeWindow_eq : u.manager.activeWindow =
    u.manager.mruActiveWindows.reverse.find? (s.seenIn k) := by
  rw [crossed.assigned.activeWindow_eq crossed.settled.toSound, crossed.steady.activeWorkspace]
  exact List.find?_congr fun v member => crossed.listed member

end Crossed

/-- Which window is active after a switch away from one that is. -/
theorem Exchanged.busy_active (exchanged : s.Exchanged k u) (crossed : s.Crossed k u)
    (settled : s.Settled) (assigned : s.Assigned) (key : s.HasKey k) (leaves : k ≠ s.activeWorkspace)
    (undivided : s.Undivided s.activeWorkspace k) (active : s.manager.activeWindow = some a) :
    (s.manager.mruActiveWindows.reverse.find? (fun v => v = a || s.seenIn k v) ≠ some a →
      u.manager.mruActiveWindows = s.manager.mruActiveWindows) ∧
    (s.manager.mruActiveWindows.reverse.find? (fun v => v = a || s.seenIn k v) = some a →
      ∃ r, u.manager.FirstPick (s.manager.mruActiveWindows.reverse.filter (s.seenIn k)) r ∧
        u.manager.mruActiveWindows = promoted s.manager.mruActiveWindows r ∧
        u.manager.activeWindow =
          r.or (s.manager.mruActiveWindows.reverse.find? (s.seenIn k))) := by
  have sound := crossed.settled.toSound
  obtain ⟨kept, moved⟩ := exchanged.busy settled assigned key leaves active
  refine ⟨kept, fun front => ?_⟩
  obtain ⟨r, search, mru⟩ := moved front
  have here : (s.activeWorkspace, a) ∈ u.manager.workspacesToWindows :=
    crossed.steady.pairs ▸ assigned.activeWindow settled.toSound active
  have plain : ¬u.IsDecoration a :=
    mt crossed.steady.isDecoration.mp (settled.furnished.idle a (activeWindow_mem active))
  have apart : u.Undivided s.activeWorkspace u.activeWorkspace := by
    rw [show u.activeWorkspace = k from crossed.steady.activeWorkspace]
    exact crossed.undivided undivided
  have nothing {r : Option Window} (picks : u.manager.Picks a r) : r = none :=
    crossed.assigned.picks_none sound apart here plain picks
  refine ⟨r, ?_, mru, ?_⟩
  · cases search with
    | found picks => exact absurd (nothing picks) (by simp)
    | missed _ search => exact search
  · cases r with
    | none => rw [crossed.activeWindow_eq, mru]; rfl
    | some x => exact activeWindow_promoted sound.furnished.coherent search.focusable mru

theorem filter_promoted {mru : List Window} (unseen : ¬s.seenIn k w) :
    (promoted mru (some w)).reverse.filter (s.seenIn k) = mru.reverse.filter (s.seenIn k) := by
  rw [promoted, List.reverse_append, List.filter_append, ← List.filter_reverse,
    List.filter_filter]
  have gone : [w].reverse.filter (s.seenIn k) = [] := by simpa using unseen
  rw [gone, List.nil_append]
  apply List.filter_congr
  intro v _
  by_cases eq : v = w
  · subst eq
    simpa using unseen
  · simp [eq]

theorem find?_promoted {mru : List Window} (unseen : ¬s.seenIn k w) :
    (promoted mru (some w)).reverse.find? (s.seenIn k) = mru.reverse.find? (s.seenIn k) := by
  rw [← List.head?_filter, filter_promoted unseen, List.head?_filter]

namespace ThereAndBack

variable (round : ThereAndBack k s t u)

include round

theorem alike : Model.Alike u.manager s.manager := by
  have sound := round.settled.toSound
  have sound' := round.back.settled.toSound
  have types (v : Window) : u.manager.typeOf v = s.manager.typeOf v :=
    (round.back.steady.types v).trans (round.crossed.steady.types v)
  refine ⟨fun v => ?_, fun v => ?_, fun v => ?_, fun v => (types v).symm, fun v => ?_⟩
  · rw [sound.furnished.coherent.integrity.live, sound'.furnished.coherent.integrity.live,
      managed_of_types (types v)]
  · exact ((round.back.steady.parents v).trans (round.crossed.steady.parents v)).symm
  · exact ((round.back.steady.children v).trans (round.crossed.steady.children v)).symm
  · rw [round.assigned.focusable_iff sound, round.back.assigned.focusable_iff sound',
      round.back.steady.activeWorkspace, round.back.canFocus, round.crossed.canFocus]

theorem activeWindow_eq : u.manager.activeWindow =
    u.manager.mruActiveWindows.reverse.find? (s.seenIn s.activeWorkspace) := by
  rw [round.back.activeWindow_eq]
  refine List.find?_congr fun v member => round.crossed.seenIn fun decoration => ?_
  exact round.back.settled.furnished.idle v (List.mem_reverse.mp member)
    (round.back.steady.isDecoration.mpr (round.crossed.steady.isDecoration.mpr decoration))

theorem quiet_iff (search : t.manager.FirstPick
    (s.manager.mruActiveWindows.reverse.filter (s.seenIn k)) r) : r = none ↔ s.Quiet k := by
  have parents : t.manager.parentOf = s.manager.parentOf := round.parentOf
  rw [search.none_iff round.crossed.settled.furnished.coherent.integrity, parents]
  simp only [round.crossed.assigned.offers_iff round.crossed.settled.toSound, round.active,
    round.crossed.offersIn, List.mem_filter, List.mem_reverse, and_imp, Quiet]

theorem loyal_iff (search : s.manager.FirstPick
    (s.manager.mruActiveWindows.reverse.filter (s.seenIn s.activeWorkspace)) r) :
    s.Loyal a ↔ r = none ∨ r = some a := by
  rw [← round.assigned.candidates_eq round.settled.toSound] at search
  exact ⟨fun loyal => loyal r search, fun either r' search' => search.det search' ▸ either⟩

/-- The way back from a window that is active. -/
theorem busy_late {b : Window} (undivided : s.Undivided k s.activeWorkspace)
    (active : t.manager.activeWindow = some b) :
    (t.manager.mruActiveWindows.reverse.find?
      (fun v => v = b || s.seenIn s.activeWorkspace v) ≠ some b →
      u.manager.mruActiveWindows = t.manager.mruActiveWindows) ∧
    (t.manager.mruActiveWindows.reverse.find?
      (fun v => v = b || s.seenIn s.activeWorkspace v) = some b →
      ∃ r, s.manager.FirstPick
          (t.manager.mruActiveWindows.reverse.filter (s.seenIn s.activeWorkspace)) r ∧
        u.manager.activeWindow =
          r.or (t.manager.mruActiveWindows.reverse.find? (s.seenIn s.activeWorkspace))) := by
  have apart : t.Undivided t.activeWorkspace s.activeWorkspace := by
    rw [round.active]
    exact round.crossed.undivided undivided
  obtain ⟨kept, moved⟩ := round.second.busy_active round.back round.crossed.settled
    round.crossed.assigned round.home round.returns apart active
  have same (v : Window) (member : v ∈ t.manager.mruActiveWindows.reverse) :
      t.seenIn s.activeWorkspace v = s.seenIn s.activeWorkspace v := round.crossed.listed member
  have front : t.manager.mruActiveWindows.reverse.find?
      (fun v => v = b || t.seenIn s.activeWorkspace v) =
      t.manager.mruActiveWindows.reverse.find?
        (fun v => v = b || s.seenIn s.activeWorkspace v) :=
    List.find?_congr fun v member => by rw [same v member]
  rw [front, List.filter_congr same, List.find?_congr same] at moved
  rw [front] at kept
  refine ⟨kept, fun first => ?_⟩
  obtain ⟨r, search, -, now⟩ := moved first
  exact ⟨r, round.alike.firstPick search, now⟩

theorem first_seen (active : s.manager.activeWindow = some a) :
    s.manager.mruActiveWindows.reverse.find? (s.seenIn s.activeWorkspace) = some a := by
  rw [← round.assigned.activeWindow_eq round.settled.toSound, active]

theorem seen_apart (plain : ¬s.IsDecoration v) (inK : s.seenIn k v) :
    ¬s.seenIn s.activeWorkspace v :=
  round.assigned.seenIn_apart round.settled.toSound round.key round.assigned.active round.leaves
    plain inK

/-- If nobody takes the focus on the way there, it is where it was. -/
theorem focus_kept (undivided : s.Undivided k s.activeWorkspace)
    (undivided' : s.Undivided s.activeWorkspace k) (active : s.manager.activeWindow = some a)
    (front : s.manager.mruActiveWindows.reverse.find? (fun v => v = a || s.seenIn k v) = some a)
    (mru : t.manager.mruActiveWindows = s.manager.mruActiveWindows) :
    u.manager.activeWindow = some a := by
  have sound := round.settled.toSound
  have first := round.first_seen active
  have seen : s.seenIn s.activeWorkspace a := List.find?_some first
  have listed := activeWindow_mem active
  have plain := sound.furnished.idle a listed
  have now : t.manager.activeWindow =
      s.manager.mruActiveWindows.reverse.find? (s.seenIn k) := by
    rw [round.crossed.activeWindow_eq, mru]
  cases other : s.manager.mruActiveWindows.reverse.find? (s.seenIn k) with
  | some b =>
    have inK : s.seenIn k b := List.find?_some other
    have ne : b ≠ a := by
      rintro rfl
      exact round.seen_apart plain inK seen
    have late := (round.busy_late undivided (now.trans other)).1
    rw [mru, ← find?_or other] at late
    have same : s.manager.mruActiveWindows.reverse.find?
        (fun v => s.seenIn k v || s.seenIn s.activeWorkspace v) = some a := by
      simp only [Bool.or_comm (s.seenIn k _)]
      rw [find?_or first, front]
    rw [round.activeWindow_eq, late (by rw [same]; simpa using ne.symm), first]
  | none =>
    have apart : t.Undivided s.activeWorkspace t.activeWorkspace := by
      rw [round.active]
      exact round.crossed.undivided undivided'
    have here : (s.activeWorkspace, a) ∈ s.manager.workspacesToWindows := (seenIn_iff.mp seen).1
    have live : t.manager.Live a := (round.crossed.settled.furnished.coherent.integrity.live a).mpr
      (round.managed_t (managed_of_seenIn sound seen))
    have locked : t.manager.lock (t.workspaceToActive s.activeWorkspace) = some a := by
      rw [round.crossed.remembered a active here plain, lock_some live]
    have shares : s.activeWorkspace ∈ t.manager.workspacesContaining a :=
      mem_workspacesContaining.mpr
        ⟨round.pairs ▸ here, (round.crossed.settled.living _).mpr round.home⟩
    have presentable : t.presentable a := by
      rw [round.crossed.presentable a plain]
      exact (seenIn_iff.mp seen).2
    have recalled := (round.second.idle round.crossed.settled round.crossed.assigned round.home
      round.returns apart (now.trans other)).2 a locked shares (mru ▸ listed) presentable
    rw [mru] at recalled
    rw [round.activeWindow_eq]
    rcases recalled with same | promoted
    · rw [same, first]
    · rw [promoted]
      simp [Model.promoted, seen]

theorem focus_lent {x : Window} (undivided : s.Undivided k s.activeWorkspace)
    (active : s.manager.activeWindow = some a) (focusable : t.manager.Focusable x)
    (mru : t.manager.mruActiveWindows = promoted s.manager.mruActiveWindows (some x)) :
    u.manager.activeWindow = some a ↔ s.Loyal a := by
  have sound := round.crossed.settled.toSound
  have can := (round.crossed.assigned.focusable_iff sound).mp focusable
  rw [round.active, round.crossed.canFocus] at can
  have unseen := round.seen_apart can.2.2 can.2.1
  have now := activeWindow_promoted sound.furnished.coherent focusable mru
  have late := (round.busy_late undivided now).2
  rw [mru, filter_promoted unseen, find?_promoted unseen, round.first_seen active] at late
  obtain ⟨r, search, active'⟩ := late (by simp [promoted])
  rw [active', round.loyal_iff search]
  cases r <;> simp

/-- If a window of the other workspace has had the focus later, it takes it over, and yields it
on the way back. -/
theorem focus_overtaken (undivided : s.Undivided k s.activeWorkspace)
    (active : s.manager.activeWindow = some a)
    (behind : s.manager.mruActiveWindows.reverse.find? (fun v => v = a || s.seenIn k v) ≠ some a)
    (mru : t.manager.mruActiveWindows = s.manager.mruActiveWindows) :
    u.manager.activeWindow = some a ↔ s.Loyal a := by
  have first := round.first_seen active
  have seen : s.seenIn s.activeWorkspace a := List.find?_some first
  obtain ⟨b, found⟩ : ∃ b, s.manager.mruActiveWindows.reverse.find?
      (fun v => s.seenIn s.activeWorkspace v || s.seenIn k v) = some b := by
    apply Option.isSome_iff_exists.mp
    apply List.find?_isSome.mpr
    exact ⟨a, List.mem_reverse.mpr (activeWindow_mem active), by simp [seen]⟩
  have ne : b ≠ a := by
    rintro rfl
    exact behind (find?_or (q := s.seenIn k) first ▸ found)
  have either := List.find?_some (p := fun v => s.seenIn s.activeWorkspace v || s.seenIn k v) found
  have inK : s.seenIn k b := by
    rcases (Bool.or_eq_true _ _).mp either with inA | inK
    · have same := find?_narrow (q := s.seenIn s.activeWorkspace) found (by simp +contextual) inA
      exact absurd (Option.some.inj (same.symm.trans first)) ne
    · exact inK
  have other : s.manager.mruActiveWindows.reverse.find? (s.seenIn k) = some b :=
    find?_narrow found (by simp +contextual) inK
  have now : t.manager.activeWindow = some b := by rw [round.crossed.activeWindow_eq, mru, other]
  have late := (round.busy_late undivided now).2
  rw [mru, ← find?_or other, first] at late
  obtain ⟨r, search, active'⟩ := late (by simp only [Bool.or_comm (s.seenIn k _)]; exact found)
  rw [active', round.loyal_iff search]
  cases r <;> simp

theorem focus_busy (undivided : s.Undivided k s.activeWorkspace)
    (undivided' : s.Undivided s.activeWorkspace k) (active : s.manager.activeWindow = some a) :
    u.manager.activeWindow = some a ↔
      (s.manager.mruActiveWindows.reverse.find? (fun v => v = a || s.seenIn k v) = some a ∧
        s.Quiet k) ∨ s.Loyal a := by
  obtain ⟨kept, moved⟩ := round.first.busy_active round.crossed round.settled round.assigned
    round.key round.leaves undivided' active
  by_cases front :
      s.manager.mruActiveWindows.reverse.find? (fun v => v = a || s.seenIn k v) = some a
  · obtain ⟨r, search, mru, -⟩ := moved front
    have quiet := round.quiet_iff search
    cases r with
    | none =>
      have stays := round.focus_kept undivided undivided' active front mru
      exact iff_of_true stays (.inl ⟨front, quiet.mp rfl⟩)
    | some x =>
      have busy : ¬s.Quiet k := fun h => by simpa using quiet.mpr h
      rw [round.focus_lent undivided active search.focusable mru]
      simp [busy]
  · rw [round.focus_overtaken undivided active front (kept front)]
    simp [front]

theorem unseen (inactive : s.manager.activeWindow = none) (listed : v ∈ s.manager.mruActiveWindows) :
    ¬s.seenIn s.activeWorkspace v := by
  rw [round.assigned.activeWindow_eq round.settled.toSound] at inactive
  exact List.find?_eq_none.mp inactive v (List.mem_reverse.mpr listed)

/-- If no window is active there either, one that can be is woken on the way back. -/
theorem focus_asleep (undivided' : s.Undivided s.activeWorkspace k)
    (inactive : s.manager.activeWindow = none) (still : t.manager.activeWindow = none)
    (mru : t.manager.mruActiveWindows = s.manager.mruActiveWindows) :
    u.manager.activeWindow = none ↔ ∀ w, ¬s.manager.Focusable w := by
  have sound := round.settled.toSound
  have apart : t.Undivided s.activeWorkspace t.activeWorkspace := by
    rw [round.active]
    exact round.crossed.undivided undivided'
  have plain_t {w : Window} : t.IsDecoration w ↔ s.IsDecoration w :=
    round.crossed.steady.isDecoration
  have activatable (w : Window) : t.activatable w = s.activatable w :=
    round.crossed.steady.activatable
  obtain ⟨⟨shown, members, awoken⟩, -⟩ := round.second.idle round.crossed.settled
    round.crossed.assigned round.home round.returns apart still
  cases awoken with
  | nobody still' _ passed =>
    apply iff_of_true still'
    intro w focusable
    obtain ⟨active, seen, plain⟩ := (round.assigned.focusable_iff sound).mp focusable
    obtain ⟨inA, presentable⟩ := seenIn_iff.mp seen
    have managed := round.managed_t focusable.managed
    have flag : (t.policyData w).inHiddenWorkspace :=
      (round.crossed.assigned.flagged w managed (round.plain_t plain)).mpr fun inK => by
        rw [round.pairs, round.active] at inK
        exact round.apart focusable.managed plain inK inA
    have refuses := (passed w ((members w).mpr ⟨round.pairs ▸ inA, round.plain_t plain⟩) flag (by
      rwa [round.crossed.presentable w plain])).1
    rw [activatable] at refuses
    exact refuses active
  | @somebody w busy member _ presentable gets =>
    apply iff_of_false busy
    intro nobody
    obtain ⟨inA, plain⟩ := (members w).mp member
    rw [plain_t] at plain
    rw [round.pairs] at inA
    rw [round.crossed.presentable w plain] at presentable
    have seen : s.seenIn s.activeWorkspace w := seenIn_iff.mpr ⟨inA, presentable⟩
    rcases gets with ⟨active, -⟩ | ⟨listed, -⟩
    · rw [activatable] at active
      exact nobody w ((round.assigned.focusable_iff sound).mpr ⟨active, seen, plain⟩)
    · exact round.unseen inactive (mru ▸ listed) seen

theorem focus_woken {b : Window} (undivided : s.Undivided k s.activeWorkspace)
    (now : t.manager.activeWindow = some b)
    (nobody : ∀ v ∈ t.manager.mruActiveWindows.reverse, ¬s.seenIn s.activeWorkspace v) :
    u.manager.activeWindow = none := by
  have none : t.manager.mruActiveWindows.reverse.find? (s.seenIn s.activeWorkspace) = none :=
    List.find?_eq_none.mpr nobody
  have front : t.manager.mruActiveWindows.reverse.find?
      (fun v => v = b || s.seenIn s.activeWorkspace v) = some b := by
    have same : ∀ v ∈ t.manager.mruActiveWindows.reverse,
        (decide (v = b) || s.seenIn s.activeWorkspace v) = decide (v = b) := fun v listed => by
      simp [nobody v listed]
    have there : ∃ v ∈ t.manager.mruActiveWindows.reverse, decide (v = b) = true :=
      ⟨b, List.mem_reverse.mpr (activeWindow_mem now), by simp⟩
    rw [List.find?_congr same]
    obtain ⟨c, found⟩ := Option.isSome_iff_exists.mp (List.find?_isSome.mpr there)
    rw [found, of_decide_eq_true (List.find?_some (p := fun v => decide (v = b)) found)]
  have late := (round.busy_late undivided now).2
  rw [List.filter_eq_nil_iff.mpr nobody, none] at late
  obtain ⟨r, search, now'⟩ := late front
  cases search
  rw [now']
  rfl

/-- If no window is active to begin with. -/
theorem focus_idle (undivided : s.Undivided k s.activeWorkspace)
    (undivided' : s.Undivided s.activeWorkspace k) (inactive : s.manager.activeWindow = none) :
    u.manager.activeWindow = none ↔
      (∃ w, ¬s.IsDecoration w ∧ s.seenIn k w ∧
        (s.activatable w ∨ w ∈ s.manager.mruActiveWindows)) ∨ ∀ w, ¬s.manager.Focusable w := by
  have sound := round.settled.toSound
  obtain ⟨⟨shown, members, awoken⟩, -⟩ := round.first.idle round.settled round.assigned round.key
    round.leaves undivided inactive
  cases awoken with
  | nobody still mru passed =>
    have none : ¬∃ w, ¬s.IsDecoration w ∧ s.seenIn k w ∧
        (s.activatable w ∨ w ∈ s.manager.mruActiveWindows) := by
      rintro ⟨w, plain, seen, wakes⟩
      obtain ⟨inK, presentable⟩ := seenIn_iff.mp seen
      have managed := managed_of_seenIn sound seen
      have flag := (round.assigned.flagged w managed plain).mpr (round.apart managed plain inK)
      obtain ⟨refuses, unlisted⟩ := passed w ((members w).mpr ⟨inK, plain⟩) flag presentable
      exact wakes.elim refuses unlisted
    rw [or_iff_right none]
    exact round.focus_asleep undivided' inactive still mru
  | @somebody w busy member _ presentable gets =>
    obtain ⟨inK, plain⟩ := (members w).mp member
    have seen : s.seenIn k w := seenIn_iff.mpr ⟨inK, presentable⟩
    have nobody : ∀ v ∈ t.manager.mruActiveWindows.reverse, ¬s.seenIn s.activeWorkspace v := by
      intro v listed
      rw [List.mem_reverse] at listed
      rcases gets with ⟨-, mru⟩ | ⟨-, mru⟩
      · rw [mru] at listed
        rcases List.mem_append.mp listed with before | last
        · exact round.unseen inactive (List.mem_of_mem_filter before)
        · rw [List.mem_singleton.mp last]
          exact round.seen_apart plain seen
      · exact round.unseen inactive (mru ▸ listed)
    obtain ⟨b, now⟩ := Option.ne_none_iff_exists'.mp busy
    have asleep := round.focus_woken undivided now nobody
    exact iff_of_true asleep (.inl ⟨w, plain, seen, gets.imp And.left And.left⟩)

theorem focus (undivided : s.Undivided k s.activeWorkspace)
    (undivided' : s.Undivided s.activeWorkspace k) :
    u.manager.activeWindow = s.manager.activeWindow ↔ s.FocusComesBack k := by
  unfold FocusComesBack
  cases active : s.manager.activeWindow with
  | none => exact round.focus_idle undivided undivided' active
  | some a => exact round.focus_busy undivided undivided' active

end ThereAndBack

end Shell

/-- To workspace `k` and back again, with nothing else in between. -/
def TitlebarPolicy.switchAndBack (fuel : Nat) (k : Workspace) : TitlebarPolicy Unit := do
  let s ← Prog.state
  switchWorkspaceTo fuel k none
  switchWorkspaceTo fuel s.activeWorkspace none

namespace Shell

/-- All windows look as before, and the same one is active. -/
def Restored (s u : Shell) : Prop := (∀ v, ¬s.IsDecoration v → u.appearance v = s.appearance v) ∧
  u.manager.activeWindow = s.manager.activeWindow

/-- All windows of the two workspaces come back as they were, and so does the focus. -/
def Reverts (s : Shell) (k : Workspace) : Prop :=
  (∀ w, s.InEither k w → ¬s.IsDecoration w → s.ComesBack w) ∧ s.FocusComesBack k

end Shell

open TitlebarPolicy

theorem TitlebarPolicy.ensures_switchAndBack {s : Shell} {k : Workspace} {fuel : Nat}
    (settled : s.Settled) (assigned : s.Assigned) (key : s.HasKey k)
    (leaves : k ≠ s.activeWorkspace) : (switchAndBack fuel k).Ensures s
      (fun _ u => ∃ t, s.ThereAndBack k t u) (fun _ _ => False) (s.manager.Short fuel) := by
  rw [switchAndBack, ensures_bind, ensures_state]
  apply (ensures_switchWorkspaceTo settled.toSound k none).bind
  intro _ t there
  have crossed := there.crossed settled assigned key leaves
  have first := there.exchanged settled leaves
  have home : t.HasKey s.activeWorkspace := by
    rw [Shell.HasKey, crossed.steady.keyToWorkspace]
    exact assigned.active
  have returns : s.activeWorkspace ≠ t.activeWorkspace := by
    rw [crossed.steady.activeWorkspace]
    exact leaves.symm
  refine (ensures_switchWorkspaceTo crossed.settled.toSound s.activeWorkspace none).mono ?_
    (fun _ _ h => h) (Short.congr crossed.steady.parents)
  intro _ u again
  exact ⟨t, leaves, key, settled, assigned, first, crossed, again.exchanged crossed.settled returns,
    again.crossed crossed.settled crossed.assigned home returns⟩

/-- To another workspace and back again is the identity if all windows come back as they were and
so does the focus. For the windows this is needed in any case, for the focus unless a tree of
windows has some that can be given it in both workspaces. -/
theorem switch_back_restores {s : Shell} (settled : s.Settled) (assigned : s.Assigned)
    (acyclic : s.manager.Acyclic) (key : WorkspaceKey)
    (leaves : s.keyToWorkspace key ≠ s.activeWorkspace) :
    (∀ fuel u, switchAndBack fuel (s.keyToWorkspace key) s = .returned () u →
      (s.Undivided (s.keyToWorkspace key) s.activeWorkspace →
        s.Undivided s.activeWorkspace (s.keyToWorkspace key) →
        (s.Restored u ↔ s.Reverts (s.keyToWorkspace key))) ∧
      ((∀ v, ¬s.IsDecoration v → u.appearance v = s.appearance v) ↔
        ∀ w, s.InEither (s.keyToWorkspace key) w → ¬s.IsDecoration w → s.ComesBack w)) ∧
    (∀ fuel failure u, switchAndBack fuel (s.keyToWorkspace key) s ≠ .thrown failure u) ∧
    ∃ n, ∀ fuel ≥ n, ∃ u, switchAndBack fuel (s.keyToWorkspace key) s = .returned () u := by
  have script (fuel : Nat) :
      (switchAndBack fuel (s.keyToWorkspace key)).Ensures s _ _ (s.manager.Short fuel) :=
    ensures_switchAndBack settled assigned ⟨key, rfl⟩ leaves
  refine ⟨fun fuel u run => ?_, fun fuel failure u => (script fuel).thrown, ?_⟩
  · obtain ⟨t, round⟩ := (script fuel).returned run
    have looks : (∀ v, ¬s.IsDecoration v → u.appearance v = s.appearance v) ↔
        ∀ w, s.InEither (s.keyToWorkspace key) w → ¬s.IsDecoration w → s.ComesBack w :=
      ⟨fun same _ => round.comesBack acyclic same, fun back _ => round.appearance back⟩
    exact ⟨fun undivided undivided' => and_congr looks (round.focus undivided undivided'), looks⟩
  · obtain ⟨n, enough⟩ := acyclic.enough
    refine ⟨n, fun fuel le => ?_⟩
    obtain ⟨_, u, run, -⟩ := (script fuel).returns (enough fuel le)
    exact ⟨u, run⟩

theorem settled_undecorated {m : Model} (coherent : m.Coherent)
    (living : ∀ k, k ∈ m.liveWorkspaces ↔ (Shell.undecorated m).HasKey k) :
    (Shell.undecorated m).Settled where
  toSound := sound_undecorated coherent
  living := living
  remembered _ _ recalled := absurd recalled (by simp [Shell.undecorated])

theorem hasKey_undecorated {m : Model} {k : Workspace} :
    (Shell.undecorated m).HasKey k ↔ k ∈ [0, 1, 2, 3] := by
  constructor
  · rintro ⟨key, rfl⟩
    cases key <;> simp [Shell.undecorated]
  · intro listed
    simp only [List.mem_cons, List.not_mem_nil, or_false] at listed
    obtain rfl | rfl | rfl | rfl := listed
    exacts [⟨.f1, rfl⟩, ⟨.f2, rfl⟩, ⟨.f3, rfl⟩, ⟨.f4, rfl⟩]

theorem undivided_of_orphans {s : Shell} {k k' : Workspace}
    (orphans : ∀ v, s.manager.parentOf v = none)
    (bare : ∀ pair ∈ s.manager.workspacesToWindows, s.titlebar pair.2 = none)
    (apart : ∀ w, (k, w) ∈ s.manager.workspacesToWindows →
      (k', w) ∉ s.manager.workspacesToWindows) : s.Undivided k k' := by
  intro w member _ v x either same can
  obtain rfl := either.resolve_right (by simp [bare (k, w) member])
  have alone : v = v ↔ x = v := same.congr (· = v) fun y p link => by
    rw [orphans] at link
    contradiction
  obtain rfl := alone.mp rfl
  exact apart x member (Shell.seenIn_iff.mp can.2.1).1

/-- Two windows in one workspace and a third in the other, none of which has ever been moved or
maximized. -/
theorem switch_back_restores_divided : ∃ n, ∀ fuel ≥ n, ∃ u,
    switchAndBack fuel 1 Shell.dividedState = .returned () u ∧ Shell.dividedState.Restored u := by
  obtain ⟨sound, parted⟩ := partitioned_dividedState
  have keys : Shell.dividedState.keyToWorkspace = (Shell.undecorated crowdedState).keyToWorkspace :=
    funext fun key => by cases key <;> decide +kernel
  have living : Shell.dividedState.manager.liveWorkspaces = [0, 1, 2, 3] := by decide +kernel
  have decorations : Shell.dividedState.decorations = none := by decide +kernel
  have known : ∀ v ∈ Shell.dividedState.manager.windowInfo.keys,
      Shell.dividedState.manager.parentOf v = none ∧
      (Shell.dividedState.manager.info? v).map WindowInfo.restoreRect =
        some (Shell.dividedState.manager.rect v) ∧
      Shell.dividedState.shownAt v (Shell.dividedState.manager.rect v) =
        Shell.dividedState.manager.rect v := by decide +kernel
  have bare : ∀ pair ∈ Shell.dividedState.manager.workspacesToWindows,
      Shell.dividedState.titlebar pair.2 = none := by decide +kernel
  have pairs : Shell.dividedState.manager.workspacesToWindows =
    [(0, ⟨1, 1⟩), (0, ⟨1, 2⟩), (1, ⟨1, 3⟩)] := by decide +kernel
  have here : Shell.dividedState.activeWorkspace = 0 := by decide +kernel
  have active : Shell.dividedState.manager.activeWindow = some ⟨1, 2⟩ := by decide +kernel
  have next : Shell.dividedState.manager.candidates (fun _ _ => true) = [⟨1, 2⟩, ⟨1, 1⟩] := by
    decide +kernel
  have picks : Shell.dividedState.manager.Picks ⟨1, 2⟩ (some ⟨1, 2⟩) := .of_any (by decide +kernel)
  revert sound parted keys living decorations known bare pairs here active next picks
  generalize Shell.dividedState = s
  intro sound parted keys living decorations known bare pairs here active next picks
  have settled : s.Settled :=
    { toSound := sound
      living := fun k => by rw [living, Shell.HasKey, keys, ← Shell.HasKey, hasKey_undecorated]
      remembered := fun k w _ => by simp [Shell.IsDecoration, decorations] }
  have orphans (v : Window) : s.manager.parentOf v = none := by
    by_cases managed : s.manager.Managed v
    · exact (known v (mem_keys.mpr managed)).1
    · exact Option.not_isSome_iff_eq_none.mp fun link => managed
        (managed_of_parentOf (Option.some_get link).symm)
  obtain ⟨restores, -, n, returns⟩ := switch_back_restores settled parted.toAssigned parted.acyclic
    .f2 (by rw [keys, here]; decide)
  have second : s.keyToWorkspace .f2 = 1 := by rw [keys]; rfl
  rw [second] at restores returns
  have undivided : s.Undivided 1 s.activeWorkspace :=
    undivided_of_orphans orphans bare fun w => by simp +contextual [pairs, here]
  have undivided' : s.Undivided s.activeWorkspace 1 :=
    undivided_of_orphans orphans bare fun w => by
      simp only [pairs, here, List.mem_cons, Prod.mk.injEq]
      grind
  refine ⟨n, fun fuel le => ?_⟩
  obtain ⟨u, run⟩ := returns fuel le
  refine ⟨u, run, ((restores fuel u run).1 undivided undivided').mpr ⟨fun w _ _ info there => ?_, ?_⟩⟩
  · obtain ⟨-, unmoved, inPlace⟩ := known w (mem_keys.mpr (managed_iff.mpr ⟨info, there⟩))
    rw [there] at unmoved
    exact .inr ⟨Option.some.inj unmoved, inPlace⟩
  · rw [Shell.FocusComesBack, active]
    refine .inr fun r search => .inr ?_
    rw [next] at search
    cases search with
    | found picks' => exact picks'.det picks
    | missed picks' => exact absurd (picks'.det picks) (by simp)

def Model.maximizedState : Model :=
  (Op.follow 12 (fun s op => op.Contract s ∧ op.asksParent = false)
    (Op.deskRun ++ [.modifySurface ⟨1, 1⟩ { state := some .maximized }]) .start).get
    (by decide +kernel)

theorem reachable_maximizedState :
    Reachable (fun s op => op.Contract s ∧ op.asksParent = false) maximizedState :=
  (Reachable.initial _ _).follow (Option.some_get _).symm

/-- Where it was before is forgotten. -/
theorem switch_back_restores_fails :
    ¬∀ (s : Shell) key fuel u, s.Settled → s.Assigned → s.manager.Acyclic →
      s.keyToWorkspace key ≠ s.activeWorkspace →
      switchAndBack fuel (s.keyToWorkspace key) s = .returned () u → s.Restored u := by
  intro claim
  have parted : (Shell.undecorated maximizedState).Partitioned :=
    partitioned_undecorated reachable_maximizedState.acyclic_of_linkless.acyclic.2
      (by decide +kernel) (by decide +kernel) (by decide +kernel)
  have settled : (Shell.undecorated maximizedState).Settled :=
    settled_undecorated (reachable_maximizedState.mono fun _ _ h => h.1).coherent fun k => by
      rw [hasKey_undecorated, show maximizedState.liveWorkspaces = [0, 1, 2, 3] by decide +kernel]
  have before : (Shell.undecorated maximizedState).appearance ⟨1, 1⟩ =
    some (.maximized, ⟨⟨0, 0⟩, ⟨640, 480⟩⟩, ⟨⟨270, 134⟩, ⟨100, 80⟩⟩) := by decide +kernel
  have after : (switchAndBack 12 1 (Shell.undecorated maximizedState)).returned?.map
      (·.appearance ⟨1, 1⟩) =
        some (some (.maximized, ⟨⟨0, 0⟩, ⟨640, 480⟩⟩, ⟨⟨0, 0⟩, ⟨640, 480⟩⟩)) := by decide +kernel
  obtain ⟨u, run, looks⟩ := Option.map_eq_some_iff.mp after
  obtain ⟨_, run⟩ := Outcome.returned?_eq_some.mp run
  have same := (claim _ .f2 12 u settled parted.toAssigned parted.acyclic (by decide) run).1 ⟨1, 1⟩
    (by simp [Shell.IsDecoration, Shell.undecorated])
  rw [looks, before] at same
  exact absurd same (by decide)

end Miral
