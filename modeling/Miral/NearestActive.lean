import Mathlib.Logic.Relation
import Miral.Coherence

/-! Which window `select_active_window` settles on: up from the hint to the first window with
something to offer, then down along visible dialogs. -/
namespace Miral

open Program Prog Forest Model

namespace Model

variable {s t : Model} {w v a x : Window} {r : Option Window}

/-- The visible dialog that goes before the window itself. -/
def dialogOf (s : Model) (w : Window) : Option Window :=
  (s.info? w).bind fun info => s.firstDialog info.children

/-- The way up ends at the window. -/
def Offers (s : Model) (w : Window) : Prop := (s.dialogOf w).isSome ∨ s.Focusable w

/-- The nearest of a window and its ancestors that has something to offer. -/
def NearestOffer (s : Model) (w a : Window) : Prop :=
  ∃ n, climb s.parentOf n w = some a ∧ s.Offers a ∧
    ∀ m < n, ∀ b, climb s.parentOf m w = some b → ¬s.Offers b

/-- The end of the visible dialogs below a window. -/
def DialogEnd (s : Model) (a x : Window) : Prop :=
  Relation.ReflTransGen (fun v c => s.dialogOf v = some c) a x ∧ s.dialogOf x = none

theorem dialogOf_eq {info : WindowInfo} (here : s.info? w = some info) :
    s.dialogOf w = s.firstDialog info.children := by
  rw [dialogOf, here, Option.bind_some]

theorem NearestOffer.unique {a' : Window} (near : s.NearestOffer w a)
    (near' : s.NearestOffer w a') : a = a' := by
  obtain ⟨n, reached, offers, below⟩ := near
  obtain ⟨n', reached', offers', below'⟩ := near'
  obtain less | same | more := lt_trichotomy n n'
  · exact absurd offers (below' n less a reached)
  · subst same
    exact Option.some.inj (reached.symm.trans reached')
  · exact absurd offers' (below n' more a' reached')

theorem NearestOffer.here (offers : s.Offers w) : s.NearestOffer w w :=
  ⟨0, rfl, offers, nofun⟩

theorem NearestOffer.up {p : Window} (refuses : ¬s.Offers w) (link : s.parentOf w = some p)
    (near : s.NearestOffer p a) : s.NearestOffer w a := by
  obtain ⟨n, reached, offers, below⟩ := near
  refine ⟨n + 1, (climb_link link n).trans reached, offers, fun m less b passed => ?_⟩
  cases m with
  | zero =>
    obtain rfl := Option.some.inj passed
    exact refuses
  | succ m => exact below m (Nat.lt_of_succ_lt_succ less) b ((climb_link link m).symm.trans passed)

theorem offers_dialog (dialog : s.dialogOf w = some v) : s.Offers v := by
  obtain ⟨info, here, found⟩ := Option.bind_eq_some_iff.mp dialog
  obtain ⟨-, childInfo, there, type, seen⟩ := firstDialog_spec found
  exact .inr ⟨childInfo, there, by rw [type]; rfl, seen⟩

theorem not_offers {info : WindowInfo} (here : s.info? w = some info)
    (alone : s.firstDialog info.children = none)
    (refused : ¬(info.type.canBeActive ∧ s.isVisible w info)) : ¬s.Offers w := by
  intro either
  rcases either with dialog | ⟨info', here', active, seen⟩
  · simp [dialogOf_eq here, alone] at dialog
  · obtain rfl := Option.some.inj (here.symm.trans here')
    exact refused ⟨active, seen⟩

/-- The search in both directions: the induction is on its course, which turns from up to down
once. -/
theorem Picks.course (integrity : s.Integrity) (picks : s.Picks w r) :
    (∃ a x, s.NearestOffer w a ∧ r = some x ∧ s.DialogEnd a x ∧ s.Focusable x) ∨
      r = none ∧ ∀ n b, climb s.parentOf n w = some b → ¬s.Offers b := by
  induction picks with
  | @dialog w c info r here found _ ih =>
    have dialog : s.dialogOf w = some c := (dialogOf_eq here).trans found
    have offers := offers_dialog dialog
    have start : s.NearestOffer w w := .here (.inl (by rw [dialog]; rfl))
    rcases ih with ⟨a, x, near, eq, ⟨chain, ends⟩, focusable⟩ | ⟨-, none⟩
    · obtain rfl := near.unique (.here offers)
      exact .inl ⟨w, x, start, eq, ⟨.head dialog chain, ends⟩, focusable⟩
    · exact absurd offers (none 0 c rfl)
  | @itself w info here alone active seen =>
    have focusable : s.Focusable w := ⟨info, here, active, seen⟩
    exact .inl ⟨w, w, .here (.inr focusable), rfl,
      ⟨.refl, (dialogOf_eq here).trans alone⟩, focusable⟩
  | @parent w p info r here alone refused locked _ ih =>
    have refuses := not_offers here alone refused
    have link : s.parentOf w = some p := (parentOf_eq here).trans (lock_eq_some.mp locked).1
    rcases ih with ⟨a, x, near, eq, ends, focusable⟩ | ⟨eq, none⟩
    · exact .inl ⟨a, x, near.up refuses link, eq, ends, focusable⟩
    · refine .inr ⟨eq, fun n b reached => ?_⟩
      cases n with
      | zero =>
        obtain rfl := Option.some.inj reached
        exact refuses
      | succ n => exact none n b ((climb_link link n).symm.trans reached)
  | @nothing w info here alone refused orphan =>
    refine .inr ⟨rfl, fun n b reached => ?_⟩
    have root : s.parentOf w = Option.none := by
      rw [parentOf_eq here, ← integrity.lock_parent here, orphan]
    cases n with
    | zero =>
      obtain rfl := Option.some.inj reached
      exact not_offers here alone refused
    | succ n => simp [climb_root root] at reached

end Model

variable {s : Model} {hint : Window}

/-- `select_active_window` ends, and finds what is nearest: going up from the hint, the first
window that has a visible dialog or can be active itself; from there the last of its dialogs. -/
theorem select_active_window_nearest (integrity : s.Integrity) (acyclic : s.Acyclic)
    (synced : s.Synced) (managed : s.Managed hint) :
    (∃ n, ∀ fuel ≥ n, ∃ r t, selectActiveWindow fuel (some hint) s = .returned r t) ∧
    (∀ fuel failure t, selectActiveWindow fuel (some hint) s ≠ .thrown failure t) ∧
    ∀ fuel r t, selectActiveWindow fuel (some hint) s = .returned r t →
      (∀ a, s.NearestOffer hint a → ∃ x, r = some x ∧ s.DialogEnd a x ∧ s.Focusable x ∧
        t.visible x ∧ t.dialogOf x = none ∧ t.activeWindow = some x) ∧
      ((¬∃ a, s.NearestOffer hint a) → r = none ∧ t.mruActiveWindows = s.mruActiveWindows ∧
        t.activeWindow = s.activeWindow ∧ t.focus = s.focus) := by
  have search (fuel : Nat) : (selectActiveWindow fuel (some hint)).Ensures s
      (fun r t => s.Picks hint r ∧ s.Selected r t) (fun _ _ => False) (s.Short fuel) :=
    ensures_selectActiveWindow integrity ((integrity.live hint).mpr managed)
  refine ⟨?_, fun fuel failure t => (search fuel).thrown, fun fuel r t run => ?_⟩
  · obtain ⟨n, enough⟩ := acyclic.enough
    refine ⟨n, fun fuel le => ?_⟩
    obtain ⟨r, t, run, -⟩ := (search fuel).returns (enough fuel le)
    exact ⟨r, t, run⟩
  obtain ⟨picks, selected⟩ := (search fuel).returned run
  rcases picks.course integrity with ⟨a, x, near, rfl, ends, focusable⟩ | ⟨rfl, none⟩
  · obtain ⟨raised, -, rfl⟩ := selected
    have seen := focusable.visible synced
    refine ⟨fun a' near' => ?_, fun nothing => absurd ⟨a, near⟩ nothing⟩
    obtain rfl := near.unique near'
    exact ⟨x, rfl, ends, focusable, seen, ends.2, activeWindow_focusOn seen⟩
  · obtain rfl : t = s := selected
    refine ⟨fun a near => ?_, fun _ => ⟨rfl, rfl, rfl, rfl⟩⟩
    obtain ⟨n, reached, offers, -⟩ := near
    exact absurd offers (none n a reached)

/-- The dialog goes before the window it belongs to. -/
theorem select_active_window_nearest_dialog : ∃ n, ∀ fuel ≥ n, ∃ r t x,
    selectActiveWindow fuel (some ⟨1, 1⟩) dialogState = .returned r t ∧ r = some x ∧
      dialogState.DialogEnd ⟨1, 1⟩ x ∧ t.activeWindow = some x := by
  have reached := reachable_dialogState
  have managed : dialogState.Managed ⟨1, 1⟩ := by decide +kernel
  have dialog : dialogState.dialogOf ⟨1, 1⟩ = some ⟨1, 2⟩ := by decide +kernel
  revert reached managed dialog
  generalize dialogState = s
  intro reached managed dialog
  have coherent : s.Coherent := (reached.mono fun _ _ h => h.1).coherent
  obtain ⟨⟨n, returns⟩, -, spec⟩ := select_active_window_nearest coherent.integrity
    reached.acyclic_of_linkless.acyclic.2 coherent.synced managed
  refine ⟨n, fun fuel le => ?_⟩
  obtain ⟨r, t, run⟩ := returns fuel le
  obtain ⟨x, eq, ends, -, -, -, active⟩ := (spec fuel r t run).1 ⟨1, 1⟩
    (.here (.inl (by rw [dialog]; rfl)))
  exact ⟨r, t, x, run, eq, ends, active⟩

end Miral
