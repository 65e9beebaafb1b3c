import Miral.WorkspaceVisibility
import Mathlib.Data.List.Find

/-! Which window is active while a workspace is switched to: the windows of the other one are
hidden one after the other, the active one last. -/
namespace Miral

open Program Prog Forest Model

theorem find?_forgo {α : Type} {p q : α → Bool} {a : α} {xs : List α}
    (same : ∀ x ∈ xs, x ≠ a → q x = p x) (gone : a ∈ xs → q a = false)
    (other : xs.find? p ≠ some a) : xs.find? q = xs.find? p := by
  induction xs with
  | nil => rfl
  | cons x rest ih =>
    have later := ih (fun y member => same y (List.mem_cons_of_mem x member))
      fun member => gone (List.mem_cons_of_mem x member)
    by_cases eq : x = a
    · subst eq
      have refused : p x = false := by
        by_contra admitted
        exact other (by simp [admitted])
      simp only [List.find?_cons, refused, gone (by simp)] at other ⊢
      exact later other
    · have agree := same x (by simp) eq
      simp only [List.find?_cons, agree] at other ⊢
      cases admitted : p x with
      | true => rfl
      | false =>
        rw [admitted] at other
        exact later other

/-- What is found first decides which of the others can come before it. -/
theorem find?_or {α : Type} [DecidableEq α] {p q : α → Bool} {a : α} {xs : List α}
    (found : xs.find? p = some a) :
    xs.find? (fun x => p x || q x) = xs.find? fun x => decide (x = a) || q x := by
  induction xs with
  | nil => rfl
  | cons x rest ih =>
    simp only [List.find?_cons] at found ⊢
    cases admitted : p x with
    | true =>
      rw [admitted] at found
      simp [Option.some.inj found]
    | false =>
      rw [admitted] at found
      have ne : x ≠ a := by
        rintro rfl
        simp [List.find?_some found] at admitted
      simp [ne, ih found]

namespace Shell

/-- The state of a window, or the one it will have again when its workspace is shown. -/
def ownState (s : Shell) (w : Window) (info : WindowInfo) : WindowState :=
  if (s.policyData w).inHiddenWorkspace then (s.policyData w).oldState else info.state

def presentable (s : Shell) (w : Window) : Bool :=
  match s.manager.info? w with
  | some info => !(s.ownState w info).concealed &&
      (s.manager.surface? w).map Surface.posted = some true
  | none => false

variable {s t u : Shell} {w v : Window} {hidden : Bool} {ws : List Window} {info : WindowInfo}

theorem presentable_eq (here : s.manager.info? w = some info) : s.presentable w ↔
    ¬(s.ownState w info).concealed ∧
      (s.manager.surface? w).map Surface.posted = some true := by
  simp [presentable, here]

theorem visible_iff (sound : s.Sound) (concealed : s.Concealed) (managed : s.manager.Managed w)
    (plain : ¬s.IsDecoration w) : s.manager.visible w ↔
      (s.policyData w).inHiddenWorkspace = false ∧ s.presentable w := by
  obtain ⟨info, here⟩ := managed_iff.mp managed
  rw [sound.furnished.coherent.visible_iff here, presentable_eq here, ownState]
  cases flag : (s.policyData w).inHiddenWorkspace with
  | false => simp
  | true => simp [concealed w info here plain flag, WindowState.concealed]

theorem Visited.presentable (visited : Visited hidden w s u) (plain : ¬s.IsDecoration v) :
    u.presentable v = s.presentable v := by
  cases visited with
  | already => rfl
  | @changed info t here flag placed =>
    have posted : (t.surface? v).map Surface.posted = (s.manager.surface? v).map Surface.posted :=
      placed.posted v (.inr plain)
    have data : ∀ s' : Shell, s'.manager = t → s'.policyData = (s.setPolicyData w
        (s.dataUnder w info hidden)).policyData → s'.presentable v = s.presentable v := by
      intro s' manager data
      unfold Shell.presentable Shell.ownState
      rw [manager, data, posted]
      by_cases eq : v = w
      · subst eq
        rw [placed.record, here]
        cases hidden <;> simp [setPolicyData, dataUnder, stateUnder, flag, Bool.not_true]
      · rw [placed.infos v eq plain]
        simp [setPolicyData, eq]
    exact data _ rfl rfl

/-- `t` has come from `s` by showing and hiding windows. -/
structure Onward (s t : Shell) : Prop where
  steady : s.Steady t
  sound : t.Sound
  concealed : t.Concealed
  presentable : ∀ v, ¬s.IsDecoration v → t.presentable v = s.presentable v

namespace Onward

theorem refl (sound : s.Sound) (concealed : s.Concealed) : Onward s s :=
  ⟨.refl, sound, concealed, fun _ _ => rfl⟩

theorem trans (h : Onward s t) (h' : Onward t u) : Onward s u where
  steady := h.steady.trans h'.steady
  sound := h'.sound
  concealed := h'.concealed
  presentable v plain := (h'.presentable v fun decoration =>
    plain (h.steady.isDecoration.mp decoration)).trans (h.presentable v plain)

theorem of_visited (visited : Visited hidden w s u) (sound : s.Sound) (concealed : s.Concealed) :
    Onward s u :=
  ⟨visited.steady, visited.sound sound, visited.concealed concealed,
    fun _ => visited.presentable⟩

theorem of_steps (steps : Steps (Visited hidden) ws s u) (sound : s.Sound)
    (concealed : s.Concealed) : Onward s u := by
  induction steps with
  | nil => exact refl sound concealed
  | cons visited _ ih =>
    have onward := Onward.of_visited visited sound concealed
    exact onward.trans (ih onward.sound onward.concealed)

theorem visible (onward : Onward s t) (managed : s.manager.Managed v) (plain : ¬s.IsDecoration v) :
    t.manager.visible v ↔ (t.policyData v).inHiddenWorkspace = false ∧ s.presentable v := by
  rw [visible_iff onward.sound onward.concealed (onward.steady.managed.mpr managed)
    fun h => plain (onward.steady.isDecoration.mp h), onward.presentable v plain]

end Onward

theorem visible_hidden (steps : Steps (Visited true) ws s u) (sound : s.Sound)
    (concealed : s.Concealed) (managed : s.manager.Managed v) (plain : ¬s.IsDecoration v) :
    u.manager.visible v ↔ v ∉ ws ∧ s.manager.visible v := by
  rw [(Onward.of_steps steps sound concealed).visible managed plain, flag_steps steps,
    visible_iff sound concealed managed plain]
  by_cases member : v ∈ ws <;> simp [member]

theorem visible_shown (steps : Steps (Visited false) ws s u) (sound : s.Sound)
    (concealed : s.Concealed) (managed : s.manager.Managed v) (plain : ¬s.IsDecoration v) :
    u.manager.visible v ↔ s.manager.visible v ∨ v ∈ ws ∧ s.presentable v := by
  rw [(Onward.of_steps steps sound concealed).visible managed plain, flag_steps steps,
    visible_iff sound concealed managed plain]
  by_cases member : v ∈ ws
  · simp +contextual [member]
  · simp [member]

theorem Visited.hidden_kept (visited : Visited true w s u) (sound : s.Sound)
    (concealed : s.Concealed) (other : s.manager.activeWindow ≠ some w) :
    u.manager.mruActiveWindows = s.manager.mruActiveWindows ∧
      u.manager.activeWindow = s.manager.activeWindow := by
  have onward := Onward.of_visited visited sound concealed
  have mru : u.manager.mruActiveWindows = s.manager.mruActiveWindows := by
    cases visited with
    | already => rfl
    | changed _ _ placed => exact placed.kept (fun _ => other) fun shown => absurd rfl shown
  refine ⟨mru, ?_⟩
  rw [activeWindow, mru]
  refine find?_forgo (a := w) (fun v member ne => ?_) (fun member => ?_) other
  · have listed := List.mem_reverse.mp member
    have managed := sound.furnished.coherent.integrity.mru v listed
    have plain := sound.furnished.idle v listed
    rw [Bool.eq_iff_iff, onward.visible managed plain, visible_iff sound concealed managed plain,
      visited.policyData ne]
  · have listed := List.mem_reverse.mp member
    rw [Bool.eq_false_iff, ne_eq, onward.visible
      (sound.furnished.coherent.integrity.mru w listed) (sound.furnished.idle w listed), visited.flag]
    simp

/-- Showing a window while one is active leaves the list alone. -/
theorem Visited.shown_kept (visited : Visited false w s u) (sound : s.Sound)
    (concealed : s.Concealed) (plain : ¬s.IsDecoration w)
    (busy : s.manager.activeWindow ≠ none) :
    u.manager.mruActiveWindows = s.manager.mruActiveWindows ∧ u.manager.activeWindow ≠ none := by
  have onward := Onward.of_visited visited sound concealed
  have mru : u.manager.mruActiveWindows = s.manager.mruActiveWindows := by
    cases visited with
    | already => rfl
    | changed here flag placed =>
      refine placed.kept (fun _ active => ?_) fun _ => busy
      have managed := managed_iff.mpr ⟨_, here⟩
      have seen := (visible_iff sound concealed managed plain).mp (activeWindow_visible active)
      simp [flag] at seen
  refine ⟨mru, ?_⟩
  obtain ⟨x, active⟩ := Option.ne_none_iff_exists'.mp busy
  have listed := activeWindow_mem active
  have managed := sound.furnished.coherent.integrity.mru x listed
  have other := sound.furnished.idle x listed
  obtain ⟨unflagged, seen⟩ := (visible_iff sound concealed managed other).mp
    (activeWindow_visible active)
  have still : u.manager.visible x := by
    refine (onward.visible managed other).mpr ⟨?_, seen⟩
    by_cases eq : x = w
    · rw [eq, visited.flag]
    · rw [visited.policyData eq, unflagged]
  rw [activeWindow, mru]
  simp only [ne_eq, List.find?_eq_none, not_forall]
  exact ⟨x, List.mem_reverse.mpr listed, not_not.mpr still⟩

theorem hidden_steps_kept (steps : Steps (Visited true) ws s u) (sound : s.Sound)
    (concealed : s.Concealed) (other : ∀ w ∈ ws, s.manager.activeWindow ≠ some w) :
    u.manager.mruActiveWindows = s.manager.mruActiveWindows ∧
      u.manager.activeWindow = s.manager.activeWindow := by
  induction steps with
  | nil => exact ⟨rfl, rfl⟩
  | cons visited _ ih =>
    obtain ⟨mru, active⟩ := visited.hidden_kept sound concealed (other _ (by simp))
    obtain ⟨mru', active'⟩ := ih (visited.sound sound) (visited.concealed concealed)
      fun v member => by
        rw [active]
        exact other v (List.mem_cons_of_mem _ member)
    exact ⟨mru'.trans mru, active'.trans active⟩

theorem shown_steps_kept (steps : Steps (Visited false) ws s u) (sound : s.Sound)
    (concealed : s.Concealed) (plain : ∀ w ∈ ws, ¬s.IsDecoration w)
    (busy : s.manager.activeWindow ≠ none) :
    u.manager.mruActiveWindows = s.manager.mruActiveWindows ∧ u.manager.activeWindow ≠ none := by
  induction steps with
  | nil => exact ⟨rfl, busy⟩
  | cons visited _ ih =>
    obtain ⟨mru, active⟩ := visited.shown_kept sound concealed (plain _ (by simp)) busy
    obtain ⟨mru', active'⟩ := ih (visited.sound sound) (visited.concealed concealed)
      (fun v member decoration => plain v (List.mem_cons_of_mem _ member)
        (visited.steady.isDecoration.mp decoration)) active
    exact ⟨mru'.trans mru, active'⟩

def activatable (s : Shell) (w : Window) : Bool :=
  (s.manager.typeOf w).any WindowType.canBeActive

theorem focusable_iff (sound : s.Sound) (concealed : s.Concealed) (managed : s.manager.Managed w)
    (plain : ¬s.IsDecoration w) : s.manager.Focusable w ↔
      s.activatable w ∧ (s.policyData w).inHiddenWorkspace = false ∧ s.presentable w := by
  obtain ⟨info, here⟩ := managed_iff.mp managed
  rw [sound.furnished.coherent.focusable_iff here, visible_iff sound concealed managed plain,
    activatable, typeOf_eq here]
  rfl

theorem Steady.activatable (steady : Steady s t) : t.activatable w = s.activatable w := by
  rw [Shell.activatable, Shell.activatable, steady.types]

/-- The windows that `left` does not admit, and that cannot have the focus before they are shown. -/
structure Waiting (left : Window → Prop) (ws : List Window) (s : Shell) : Prop where
  plain : ∀ w ∈ ws, ¬s.IsDecoration w
  apart : ∀ v, s.manager.Focusable v → left v
  trees : ∀ w ∈ ws, ∀ v x, v = w ∨ s.titlebar w = some v →
    SameTree s.manager.parentOf v x → ¬left x

theorem Waiting.tail {left : Window → Prop} (waiting : s.Waiting left (w :: ws))
    (steady : Steady s u) (apart : ∀ v, u.manager.Focusable v → left v) : u.Waiting left ws where
  plain v member h := waiting.plain v (List.mem_cons_of_mem w member) (steady.isDecoration.mp h)
  apart := apart
  trees v member := by
    rw [steady.titlebar, steady.parentOf]
    exact waiting.trees v (List.mem_cons_of_mem w member)

/-- Who gets the focus when windows are shown while there is no active window: nobody as long as
none of them can, or one of them. -/
inductive Awoken (ws : List Window) (s u : Shell) : Prop where
  | nobody : u.manager.activeWindow = none →
      u.manager.mruActiveWindows = s.manager.mruActiveWindows →
      (∀ w ∈ ws, (s.policyData w).inHiddenWorkspace → s.presentable w →
        ¬s.activatable w ∧ w ∉ s.manager.mruActiveWindows) → Awoken ws s u
  | somebody {w : Window} : u.manager.activeWindow ≠ none → w ∈ ws →
      (s.policyData w).inHiddenWorkspace → s.presentable w →
      (s.activatable w ∧ u.manager.mruActiveWindows = promoted s.manager.mruActiveWindows (some w)) ∨
        w ∈ s.manager.mruActiveWindows ∧
          u.manager.mruActiveWindows = s.manager.mruActiveWindows → Awoken ws s u

theorem activeWindow_ne_none {s : Model} (listed : v ∈ s.mruActiveWindows) (seen : s.visible v) :
    s.activeWindow ≠ none := by
  intro none
  exact List.find?_eq_none.mp none v (List.mem_reverse.mpr listed) seen

/-- A window that can be given the focus now and could not before is the one that has been
shown. -/
theorem Visited.fresh (visited : Visited false w s u) (sound : s.Sound) (concealed : s.Concealed)
    (focusable : u.manager.Focusable v) (before : ¬s.manager.Focusable v) : v = w := by
  have onward := Onward.of_visited visited sound concealed
  have steady := visited.steady
  by_contra ne
  have plain : ¬s.IsDecoration v := by
    intro decoration
    exact onward.sound.furnished.plain (fun _ => rfl) focusable
      (steady.isDecoration.mpr decoration)
  have managed : s.manager.Managed v := steady.managed.mp focusable.managed
  have now := (focusable_iff onward.sound onward.concealed focusable.managed
    fun h => plain (steady.isDecoration.mp h)).mp focusable
  rw [steady.activatable, visited.policyData ne, onward.presentable v plain] at now
  exact before ((focusable_iff sound concealed managed plain).mpr now)

theorem Visited.risen (visited : Visited false w s u) (sound : s.Sound) (concealed : s.Concealed)
    (inactive : s.manager.activeWindow = none) (listed : v ∈ s.manager.mruActiveWindows)
    (seen : u.manager.visible v) : v = w := by
  have onward := Onward.of_visited visited sound concealed
  by_contra ne
  have managed := sound.furnished.coherent.integrity.mru v listed
  have plain := sound.furnished.idle v listed
  have before := (onward.visible managed plain).mp seen
  rw [visited.policyData ne] at before
  have shown := (visible_iff sound concealed managed plain).mpr before
  exact activeWindow_ne_none listed shown inactive

/-- One window is shown. -/
theorem Visited.awoken {left : Window → Prop} (visited : Visited false w s u) (sound : s.Sound)
    (concealed : s.Concealed) (inactive : s.manager.activeWindow = none)
    (waiting : s.Waiting left (w :: ws)) :
    Awoken [w] s u ∧ (u.manager.activeWindow = none → u.Waiting left ws) := by
  have onward := Onward.of_visited visited sound concealed
  have steady := visited.steady
  have plain := waiting.plain w (by simp)
  have sound' := onward.sound
  have fresh (x : Window) (focusable : u.manager.Focusable x) (apart : ¬left x) : x = w :=
    visited.fresh sound concealed focusable fun before => apart (waiting.apart x before)
  have rest (unfocused : ¬u.manager.Focusable w) : u.Waiting left ws :=
    waiting.tail steady fun x focusable => by
      by_contra apart
      exact unfocused (fresh x focusable apart ▸ focusable)
  have risen (x : Window) (listed : x ∈ s.manager.mruActiveWindows)
      (seen : u.manager.visible x) : x = w :=
    visited.risen sound concealed inactive listed seen
  cases visited with
  | already flag =>
    refine ⟨.nobody inactive rfl fun v member flagged => ?_, fun _ =>
      waiting.tail .refl waiting.apart⟩
    obtain rfl := List.mem_singleton.mp member
    simp [flag] at flagged
  | @changed info t here flag placed =>
    have managed : s.manager.Managed w := managed_iff.mpr ⟨info, here⟩
    have own : s.ownState w info = (s.policyData w).oldState := if_pos (by simpa using flag)
    have before := concealed w info here plain (by simpa using flag)
    have unflagged : (((s.setPolicyData w (s.dataUnder w info false)).setManager t).policyData
        w).inHiddenWorkspace = false := by
      simp [Shell.setManager, Shell.setPolicyData, dataUnder]
    have shown : t.visible w ↔ s.presentable w :=
      (onward.visible managed plain).trans (and_iff_right unflagged)
    have can : t.Focusable w ↔ s.activatable w ∧ s.presentable w := by
      have iff := focusable_iff sound' onward.concealed (steady.managed.mpr managed)
        fun h => plain (steady.isDecoration.mp h)
      rw [steady.activatable, onward.presentable w plain, and_iff_right unflagged] at iff
      exact iff
    have quiet (none : t.activeWindow = none) (listed : t.mruActiveWindows =
        s.manager.mruActiveWindows) (wakes : s.presentable w → ¬t.Focusable w) :
        Awoken [w] s ((s.setPolicyData w (s.dataUnder w info false)).setManager t) := by
      refine .nobody none listed fun v member _ seen => ?_
      obtain rfl := List.mem_singleton.mp member
      constructor
      · intro active
        exact wakes seen (can.mpr ⟨active, seen⟩)
      intro member
      exact activeWindow_ne_none (listed ▸ member) (shown.mpr seen) none
    by_cases conceals : (s.policyData w).oldState.concealed
    · have unseen : ¬s.presentable w := fun h => ((presentable_eq here).mp h).1 (own ▸ conceals)
      have mru := placed.kept (fun _ => by simp [inactive]) fun shows => absurd conceals shows
      have none : t.activeWindow = none := by
        by_contra active
        obtain ⟨x, active⟩ := Option.ne_none_iff_exists'.mp active
        have same := risen x (mru ▸ activeWindow_mem active) (activeWindow_visible active)
        exact unseen (shown.mp (same ▸ activeWindow_visible active))
      exact ⟨quiet none mru fun seen => absurd seen unseen,
        fun _ => rest fun focusable => unseen (can.mp focusable).2⟩
    · have wakes (none : t.activeWindow = none) : ¬t.Focusable w := fun focusable =>
        placed.wakes conceals (by rw [before]; rfl) inactive focusable none
      rcases placed.takes conceals inactive with mru | ⟨v, x, bar, tree, focusable, mru⟩
      · by_cases active : t.activeWindow = none
        · exact ⟨quiet active mru fun _ => wakes active, fun _ => rest (wakes active)⟩
        · refine ⟨?_, fun none => absurd none active⟩
          obtain ⟨x, focused⟩ := Option.ne_none_iff_exists'.mp active
          have listed : x ∈ s.manager.mruActiveWindows := mru ▸ activeWindow_mem focused
          obtain rfl := risen x listed (activeWindow_visible focused)
          exact .somebody active (by simp) (by simpa using flag)
            (shown.mp (activeWindow_visible focused)) (.inr ⟨listed, mru⟩)
      · obtain rfl := fresh x focusable (waiting.trees w (by simp) v x bar tree)
        have active : t.activeWindow ≠ none := by
          rw [activeWindow_promoted placed.furnished.coherent focusable mru]
          simp
        obtain ⟨activates, seen⟩ := can.mp focusable
        exact ⟨.somebody active (by simp) (by simpa using flag) seen (.inl ⟨activates, mru⟩),
          fun none => absurd none active⟩

theorem awoken_steps {left : Window → Prop} (steps : Steps (Visited false) ws s u) (sound : s.Sound)
    (concealed : s.Concealed) (inactive : s.manager.activeWindow = none)
    (waiting : s.Waiting left ws) : Awoken ws s u := by
  induction steps with
  | nil => exact .nobody inactive rfl (by simp)
  | @cons w rest s t u visited steps ih =>
    have onward := Onward.of_visited visited sound concealed
    have plain (v : Window) (member : v ∈ rest) : ¬t.IsDecoration v := fun h =>
      waiting.plain v (List.mem_cons_of_mem w member) (visited.steady.isDecoration.mp h)
    obtain ⟨first, tail⟩ := visited.awoken sound concealed inactive waiting
    cases first with
    | @somebody x active member flagged seen gets =>
      obtain rfl := List.mem_singleton.mp member
      obtain ⟨mru, busy⟩ := shown_steps_kept steps onward.sound onward.concealed plain active
      refine .somebody busy (by simp) flagged seen ?_
      rwa [mru]
    | nobody none mru passed =>
      cases ih onward.sound onward.concealed none (tail none) with
      | nobody none' mru' passed' =>
        refine .nobody none' (mru'.trans mru) fun v member flagged seen => ?_
        by_cases eq : v = w
        · exact passed v (by simp [eq]) flagged seen
        · have later := (List.mem_cons.mp member).resolve_left eq
          have kind := waiting.plain v member
          have := passed' v later (by rwa [visited.policyData eq])
            (by rwa [onward.presentable v kind])
          rwa [visited.steady.activatable, mru] at this
      | @somebody x active member flagged seen gets =>
        have ne : x ≠ w := by
          rintro rfl
          simp [visited.flag] at flagged
        have listed := List.mem_cons_of_mem w member
        rw [visited.policyData ne] at flagged
        rw [onward.presentable x (waiting.plain x listed)] at seen
        rw [visited.steady.activatable, mru] at gets
        exact .somebody active listed flagged seen gets

/-- What else holds of the shell: there are no workspaces but those of the policy, and it remembers
no decorations. -/
structure Settled (s : Shell) : Prop extends Sound s where
  living : ∀ k, k ∈ s.manager.liveWorkspaces ↔ s.HasKey k
  remembered : ∀ k w, s.workspaceToActive k = some w → ¬s.IsDecoration w

/-- A switch to workspace `k` with no window taken along. -/
inductive Exchanged (k : Workspace) (s : Shell) : Shell → Prop where
  | intro {shown hidden : List Window} {s₂ s₃ : Shell} :
      Steps (Visited false) shown { s with activeWorkspace := k } s₂ →
      (∀ v, v ∈ shown ↔ (k, v) ∈ s.manager.workspacesToWindows ∧ ¬s.IsDecoration v) →
      (s.manager.activeWindow = none → ∀ w, s.manager.lock (s.workspaceToActive k) = some w →
        k ∈ s.manager.workspacesContaining w → ∃ rest, shown = w :: rest) →
      (∀ v, v ∈ hidden ↔
        (s.activeWorkspace, v) ∈ s.manager.workspacesToWindows ∧ ¬s.IsDecoration v) →
      Steps (Visited true) (hidden.filter (some · ≠ s.manager.activeWindow) ++
        (s.manager.activeWindow.filter (· ∈ hidden)).toList) s₂ s₃ →
      Exchanged k s
        (s₃.rememberIf s.activeWorkspace (s.manager.activeWindow.filter (· ∈ hidden)))

theorem Switched.exchanged {k : Workspace} (switched : s.Switched k none u) (settled : s.Settled)
    (leaves : k ≠ s.activeWorkspace) : s.Exchanged k u := by
  cases switched with
  | stays same => exact absurd same leaves
  | @goes pre hidden s₁ s₂ s₃ m _ recalls recalled carries shown eq hides =>
    have steady₁ := steady_steps recalled
    have steady₂ := steady_steps shown
    obtain rfl := carries.still rfl
    have same (k' : Workspace) : s₁.toSwitch k' = s.toSwitch k' := steady₁.toSwitch k'
    refine .intro (steps_append.mpr ⟨s₁, recalled, shown⟩) (fun v => ?_)
      (fun inactive w locked member => ?_)
      (fun v => ?_) hides
    · rw [← mem_toSwitch, ← same]
      refine List.mem_append.trans (or_iff_right_of_imp fun early => ?_)
      obtain ⟨locked, member⟩ := recalls.remembered v early
      change v ∈ s₁.toSwitch k
      rw [same, mem_toSwitch]
      exact ⟨(mem_workspacesContaining.mp member).1,
        settled.remembered k v (lock_eq_some.mp locked).1⟩
    · have first := recalls.recalled inactive w locked member
      cases pre with
      | nil => simp at first
      | cons x rest =>
        obtain rfl := Option.some.inj ((recalls.remembered x (by simp)).1.symm.trans locked)
        exact ⟨_, rfl⟩
    · have later : s₂.toSwitch s.activeWorkspace = s₁.toSwitch s.activeWorkspace :=
        steady₂.toSwitch s.activeWorkspace
      rw [eq, later, same, mem_toSwitch]

def seenIn (s : Shell) (k : Workspace) (w : Window) : Bool :=
  decide ((k, w) ∈ s.manager.workspacesToWindows) && s.presentable w

theorem seenIn_iff {k : Workspace} :
    s.seenIn k w ↔ (k, w) ∈ s.manager.workspacesToWindows ∧ s.presentable w := by
  simp [seenIn]

theorem Assigned.visible_iff (assigned : s.Assigned) (sound : s.Sound)
    (managed : s.manager.Managed w) (plain : ¬s.IsDecoration w) :
    s.manager.visible w ↔ s.seenIn s.activeWorkspace w := by
  have flagged := assigned.flagged w managed plain
  rw [Shell.visible_iff sound assigned.concealed managed plain, seenIn_iff]
  apply and_congr_left
  intro _
  cases flag : (s.policyData w).inHiddenWorkspace <;> simp_all

def CanFocus (s : Shell) (k : Workspace) (w : Window) : Prop :=
  s.activatable w ∧ s.seenIn k w ∧ ¬s.IsDecoration w

theorem managed_of_seenIn {k : Workspace} (sound : s.Sound) (seen : s.seenIn k w) :
    s.manager.Managed w :=
  sound.furnished.coherent.integrity.workspaces _ (seenIn_iff.mp seen).1

theorem Assigned.focusable_iff (assigned : s.Assigned) (sound : s.Sound) :
    s.manager.Focusable w ↔ s.CanFocus s.activeWorkspace w := by
  constructor
  · intro focusable
    have plain := sound.furnished.plain (fun _ => rfl) focusable
    have seen := focusable.visible sound.furnished.coherent.synced
    exact ⟨((Shell.focusable_iff sound assigned.concealed focusable.managed plain).mp focusable).1,
      (assigned.visible_iff sound focusable.managed plain).mp seen, plain⟩
  · rintro ⟨active, seen, plain⟩
    have managed := managed_of_seenIn sound seen
    have visible := (assigned.visible_iff sound managed plain).mpr seen
    exact (Shell.focusable_iff sound assigned.concealed managed plain).mpr ⟨active,
      (Shell.visible_iff sound assigned.concealed managed plain).mp visible⟩

/-- Nothing that is seen shares a workspace with the last window to be hidden. -/
theorem hideFallbacks_eq {t : Model} {k : Workspace} {a : Window} (settled : s.Settled)
    (assigned : s.Assigned) (key : s.HasKey k) (leaves : k ≠ s.activeWorkspace)
    (member : a ∈ s.manager.mruActiveWindows)
    (pairs : t.workspacesToWindows = s.manager.workspacesToWindows)
    (living : t.liveWorkspaces = s.manager.liveWorkspaces)
    (mru : t.mruActiveWindows = s.manager.mruActiveWindows)
    (here : (s.activeWorkspace, a) ∈ s.manager.workspacesToWindows)
    (seen : ∀ v ∈ s.manager.mruActiveWindows, t.visible v ∧ v ≠ a ↔ s.seenIn k v) :
    t.hideFallbacks a = a :: s.manager.mruActiveWindows.reverse.filter (s.seenIn k) := by
  have unique (v : Window) (listed : v ∈ s.manager.mruActiveWindows) {k k' : Workspace}
      (desk : s.HasKey k) (desk' : s.HasKey k') (inK : (k, v) ∈ s.manager.workspacesToWindows)
      (inK' : (k', v) ∈ s.manager.workspacesToWindows) : k = k' :=
    assigned.unique (settled.furnished.coherent.integrity.mru v listed)
      (settled.furnished.idle v listed) desk desk' inK inK'
  have sharing : t.candidates (fun m v =>
      v ≠ a ∧ m.sharesWorkspace v (m.workspacesContaining a)) = [] := by
    apply List.eq_nil_iff_forall_not_mem.mpr
    intro v candidate
    obtain ⟨listed, visible, admitted⟩ := mem_candidates.mp candidate
    rw [mru] at listed
    obtain ⟨ne, shares⟩ := of_decide_eq_true admitted
    obtain ⟨k', ofA, ofV⟩ := sharesWorkspace_iff.mp shares
    rw [mem_workspacesContaining, pairs, living] at ofA ofV
    have desk := (settled.living k').mp ofA.2
    have inK := (seenIn_iff.mp ((seen v listed).mp ⟨visible, ne⟩)).1
    exact leaves ((unique v listed key desk inK ofV.1).trans
      (unique a member desk assigned.active ofA.1 here))
  rw [hideFallbacks, sharing, List.nil_append, candidates, mru]
  refine congrArg (a :: ·) (List.filter_congr fun v listed => ?_)
  rw [Bool.eq_iff_iff, ← seen v (List.mem_reverse.mp listed)]
  simp

/-- The trees of the windows in `k`, and of their titlebars, have no window that can be given the
focus when `k'` is shown. -/
def Undivided (s : Shell) (k k' : Workspace) : Prop :=
  ∀ w, (k, w) ∈ s.manager.workspacesToWindows → ¬s.IsDecoration w →
    ∀ v x, v = w ∨ s.titlebar w = some v → SameTree s.manager.parentOf v x → ¬s.CanFocus k' x

/-- Showing the windows of a workspace while a window is active. -/
theorem shown_busy {k : Workspace} {a : Window} {shown : List Window}
    (shows : Steps (Visited false) shown { s with activeWorkspace := k } t)
    (listed : ∀ v, v ∈ shown ↔ (k, v) ∈ s.manager.workspacesToWindows ∧ ¬s.IsDecoration v)
    (sound : s.Sound) (concealed : s.Concealed) (active : s.manager.activeWindow = some a) :
    t.manager.mruActiveWindows = s.manager.mruActiveWindows ∧
      (∀ v ∈ s.manager.mruActiveWindows,
        (t.manager.visible v ↔ s.manager.visible v ∨ s.seenIn k v)) ∧
      t.manager.activeWindow =
        s.manager.mruActiveWindows.reverse.find? fun v => v = a || s.seenIn k v := by
  have start : ({ s with activeWorkspace := k } : Shell).Sound := ⟨sound.titled, sound.furnished⟩
  obtain ⟨mru, -⟩ := shown_steps_kept shows start concealed
    (fun w member => ((listed w).mp member).2) (by rw [active]; simp)
  have seen (v : Window) (member : v ∈ s.manager.mruActiveWindows) :
      t.manager.visible v ↔ s.manager.visible v ∨ s.seenIn k v := by
    have plain := sound.furnished.idle v member
    have iff := visible_shown shows start concealed
      (sound.furnished.coherent.integrity.mru v member) plain
    rw [listed, and_iff_left plain] at iff
    rwa [seenIn_iff]
  refine ⟨mru, seen, ?_⟩
  rw [Model.activeWindow, mru, ← find?_or active]
  apply List.find?_congr
  intro v member
  rw [Bool.eq_iff_iff, seen v (List.mem_reverse.mp member), Bool.or_eq_true]

section Exchanged

variable {k : Workspace} {a : Window} (exchanged : s.Exchanged k u) (settled : s.Settled)
  (assigned : s.Assigned) (key : s.HasKey k) (leaves : k ≠ s.activeWorkspace)

include exchanged settled assigned key leaves

/-- While a window is active, the switch moves the focus only off that window, and only if nothing
of the other workspace has come before it. -/
theorem Exchanged.busy (active : s.manager.activeWindow = some a) :
    (s.manager.mruActiveWindows.reverse.find? (fun v => v = a || s.seenIn k v) ≠ some a →
      u.manager.mruActiveWindows = s.manager.mruActiveWindows) ∧
    (s.manager.mruActiveWindows.reverse.find? (fun v => v = a || s.seenIn k v) = some a →
      ∃ r, u.manager.FirstPick (a :: s.manager.mruActiveWindows.reverse.filter (s.seenIn k)) r ∧
        u.manager.mruActiveWindows = promoted s.manager.mruActiveWindows r) := by
  obtain @⟨shown, hidden, s₂, s₃, shows, listed, _, gone, hides⟩ := exchanged
  have sound := settled.toSound
  have start : ({ s with activeWorkspace := k } : Shell).Sound := ⟨sound.titled, sound.furnished⟩
  have onward₂ := Onward.of_steps shows start assigned.concealed
  have plain (v : Window) (member : v ∈ s.manager.mruActiveWindows) := sound.furnished.idle v member
  have managed (v : Window) (member : v ∈ s.manager.mruActiveWindows) :=
    sound.furnished.coherent.integrity.mru v member
  obtain ⟨mru₂, seen₂, front⟩ := shown_busy shows listed sound assigned.concealed active
  have here := assigned.activeWindow sound active
  have a_listed : a ∈ hidden := (gone a).mpr ⟨here, plain a (activeWindow_mem active)⟩
  have last : (some a).filter (· ∈ hidden) = some a := by simp [Option.filter, a_listed]
  rw [active, last] at hides ⊢
  obtain ⟨t, others, visited⟩ := steps_append.mp hides
  have visited : Visited true a t s₃ := steps_singleton.mp visited
  have onward := onward₂.trans (.of_steps others onward₂.sound onward₂.concealed)
  have away (v : Window) (member : v ∈ s.manager.mruActiveWindows) (inK : s.seenIn k v) :
      v ∉ hidden := fun left => leaves (assigned.unique (managed v member) (plain v member) key
    assigned.active (seenIn_iff.mp inK).1 ((gone v).mp left).1)
  have other (w : Window) (member : w ∈ hidden.filter (some · ≠ some a)) :
      s₂.manager.activeWindow ≠ some w := by
    intro focused
    obtain ⟨left, ne⟩ := List.mem_filter.mp member
    have mem : w ∈ s.manager.mruActiveWindows := by
      have := activeWindow_mem focused
      rwa [mru₂] at this
    rw [front] at focused
    have found := List.find?_some (p := fun v => decide (v = a) || s.seenIn k v) focused
    rcases (Bool.or_eq_true _ _).mp found with eq | inK
    · exact of_decide_eq_true ne (congrArg some (of_decide_eq_true eq))
    · exact away w mem inK left
  obtain ⟨mru, same⟩ := hidden_steps_kept others onward₂.sound onward₂.concealed other
  have listed_t : t.manager.mruActiveWindows = s.manager.mruActiveWindows := mru.trans mru₂
  rw [rememberIf_eq]
  change (_ → s₃.manager.mruActiveWindows = _) ∧ (_ → ∃ r, s₃.manager.FirstPick _ r ∧
    s₃.manager.mruActiveWindows = _)
  rw [← same.trans front]
  constructor
  · intro kept
    exact (visited.hidden_kept onward.sound onward.concealed kept).1.trans listed_t
  · intro focused
    have seen_t (v : Window) (member : v ∈ s.manager.mruActiveWindows) :
        t.manager.visible v ∧ v ≠ a ↔ s.seenIn k v := by
      rw [visible_hidden others onward₂.sound onward₂.concealed (onward₂.steady.managed.mpr
        (managed v member)) fun h => plain v member (onward₂.steady.isDecoration.mp h),
        seen₂ v member, assigned.visible_iff sound (managed v member) (plain v member)]
      constructor
      · rintro ⟨⟨kept, inA | inK⟩, ne⟩
        · refine absurd (List.mem_filter.mpr ⟨(gone v).mpr ⟨?_, plain v member⟩, ?_⟩) kept
          · exact (seenIn_iff.mp inA).1
          · simp [ne]
        · exact inK
      · intro inK
        have kept := away v member inK
        exact ⟨⟨fun h => kept (List.mem_of_mem_filter h), .inr inK⟩, fun eq => kept (eq ▸ a_listed)⟩
    have fallbacks := hideFallbacks_eq settled assigned key leaves (activeWindow_mem active)
      onward.steady.pairs onward.steady.living listed_t here seen_t
    cases visited with
    | already flag =>
      have mem := activeWindow_mem active
      have seen := (onward.visible (managed a mem) (plain a mem)).mp (activeWindow_visible focused)
      simp [flag] at seen
    | changed here flag placed =>
      obtain ⟨r, search, moved⟩ := placed.yields rfl focused
      rw [fallbacks] at search
      exact ⟨r, search, by rw [← listed_t]; exact moved⟩

/-- While no window is active, the windows that are shown may take the focus. The one that had it
when the workspace was left goes first. -/
theorem Exchanged.idle (undivided : s.Undivided k s.activeWorkspace)
    (inactive : s.manager.activeWindow = none) :
    (∃ shown, (∀ v, v ∈ shown ↔ (k, v) ∈ s.manager.workspacesToWindows ∧ ¬s.IsDecoration v) ∧
      Awoken shown s u) ∧
    ∀ a, s.manager.lock (s.workspaceToActive k) = some a → k ∈ s.manager.workspacesContaining a →
      a ∈ s.manager.mruActiveWindows → s.presentable a →
      u.manager.mruActiveWindows = s.manager.mruActiveWindows ∨
        u.manager.mruActiveWindows = promoted s.manager.mruActiveWindows (some a) := by
  obtain @⟨shown, hidden, s₂, s₃, shows, listed, recalled, gone, hides⟩ := exchanged
  have sound := settled.toSound
  have start : ({ s with activeWorkspace := k } : Shell).Sound := ⟨sound.titled, sound.furnished⟩
  have onward₂ := Onward.of_steps shows start assigned.concealed
  have integrity := sound.furnished.coherent.integrity
  have waiting : ({ s with activeWorkspace := k } : Shell).Waiting (s.CanFocus s.activeWorkspace)
      shown := by
    refine ⟨fun w member => ((listed w).mp member).2, fun v => (assigned.focusable_iff sound).mp,
      fun w member v x bar tree => ?_⟩
    obtain ⟨inK, plain⟩ := (listed w).mp member
    exact undivided w inK plain v x bar tree
  have awoken := awoken_steps shows start assigned.concealed inactive waiting
  have hides : Steps (Visited true) hidden s₂ s₃ := by simpa [inactive] using hides
  have other (w : Window) (member : w ∈ hidden) : s₂.manager.activeWindow ≠ some w := by
    intro focused
    obtain ⟨inA, plain⟩ := (gone w).mp member
    have apart : w ∉ shown := fun inK => leaves (assigned.unique
      (integrity.workspaces _ inA) plain key assigned.active ((listed w).mp inK).1 inA)
    have mem : w ∈ s.manager.mruActiveWindows := by
      have mem₂ := activeWindow_mem focused
      cases awoken with
      | nobody none => simp [none] at focused
      | @somebody x _ shows _ _ gets =>
        rcases gets with ⟨-, mru⟩ | ⟨-, mru⟩
        · rw [mru] at mem₂
          rcases List.mem_append.mp mem₂ with kept | new
          · exact List.mem_of_mem_filter kept
          · exact absurd (List.mem_singleton.mp new ▸ shows) apart
        · rwa [mru] at mem₂
    have seen := (visible_shown shows start assigned.concealed (integrity.mru w mem) plain).mp
      (activeWindow_visible focused)
    rcases seen with before | ⟨inK, -⟩
    · exact activeWindow_ne_none mem before inactive
    · exact apart inK
  obtain ⟨mru, active⟩ := hidden_steps_kept hides onward₂.sound onward₂.concealed other
  rw [rememberIf_eq]
  refine ⟨⟨shown, listed, ?_⟩, fun a locked member mem seen => ?_⟩
  · cases awoken with
    | nobody none mru₂ passed => exact .nobody (active.trans none) (mru.trans mru₂) passed
    | somebody busy member flagged seen gets =>
      refine .somebody ?_ member flagged seen ?_
      · change s₃.manager.activeWindow ≠ none
        rwa [active]
      · change _ ∧ s₃.manager.mruActiveWindows = _ ∨ _ ∧ s₃.manager.mruActiveWindows = _
        rwa [mru]
  · obtain ⟨rest, rfl⟩ := recalled inactive a locked member
    obtain _ | @⟨_, _, _, t, _, visited, steps⟩ := shows
    have onward := Onward.of_visited visited start assigned.concealed
    have plain := sound.furnished.idle a mem
    have inK := ((listed a).mp (by simp)).1
    have flagged : (s.policyData a).inHiddenWorkspace :=
      (assigned.flagged a (integrity.mru a mem) plain).mpr fun inA =>
        leaves (assigned.unique (integrity.mru a mem) plain key assigned.active inK inA)
    have first := (visited.awoken start assigned.concealed inactive waiting).1
    change s₃.manager.mruActiveWindows = _ ∨ s₃.manager.mruActiveWindows = _
    cases first with
    | nobody _ _ passed => exact absurd mem (passed a (by simp) flagged seen).2
    | @somebody x busy one _ _ gets =>
      obtain rfl := List.mem_singleton.mp one
      have kept := (shown_steps_kept steps onward.sound onward.concealed (fun v later h =>
        ((listed v).mp (List.mem_cons_of_mem _ later)).2 (onward.steady.isDecoration.mp h)) busy).1
      rw [mru, kept]
      exact (gets.imp And.right And.right).symm

end Exchanged

end Shell

end Miral
