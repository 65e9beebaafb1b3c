import Miral.Model

/-! `DecorationProvider` as steps that interleave: the window manager asks for a titlebar or
gives one up, the worker runs the oldest work item, and the client library calls back with
the surface of a titlebar that was asked for. -/
namespace Miral

/-- A `MirWindow`, the client's side of a titlebar surface. -/
abbrev MirWindow := Nat

/-- The functions that `on_create` is set to, those that paint apart. -/
inductive OnCreate where
  | nothing
  | eraseTitlebar (window : Window)
  deriving DecidableEq

/-- `DecorationProvider::Data`. -/
structure TitlebarData where
  titlebar : Option MirWindow := none
  onCreate : OnCreate := .nothing
  deriving DecidableEq

/-- The work items of the functions below. -/
inductive Work where
  | createTitlebar (window : Window)
  | releaseTitlebar (surface : MirWindow)
  | eraseTitlebar (window : Window)
  deriving DecidableEq

/-- `awaitingInsert` names the windows for whose titlebar `create_window` has been called and
`insert` has not; the data it is given is the entry of that window. -/
structure DecorationProvider where
  workQueue : List Work
  windowToTitlebar : AList fun _ : Window => TitlebarData
  awaitingInsert : List Window
  released : List MirWindow

namespace DecorationProvider

variable (self : DecorationProvider)

def initial : DecorationProvider := ⟨[], ∅, [], []⟩

/-- `find_titlebar_data`. -/
def data? (window : Window) : Option TitlebarData := self.windowToTitlebar.lookup window

def setData (window : Window) (data : TitlebarData) : DecorationProvider :=
  { self with windowToTitlebar := self.windowToTitlebar.insert window data }

def enqueueWork (work : Work) : DecorationProvider :=
  { self with workQueue := self.workQueue ++ [work] }

/-- `mir_window_release`. -/
def release (surface : MirWindow) : DecorationProvider :=
  { self with released := self.released ++ [surface] }

/-- `create_titlebar_for`. -/
def createTitlebarFor (window : Window) : DecorationProvider :=
  self.enqueueWork (.createTitlebar window)

/-- `data->titlebar.exchange(nullptr)`, and the release of what it held. -/
def takeTitlebar (window : Window) (data : TitlebarData) : DecorationProvider :=
  match data.titlebar with
  | some surface =>
    (self.setData window { data with titlebar := none }).enqueueWork (.releaseTitlebar surface)
  | none => self

/-- `destroy_titlebar_for`. -/
def destroyTitlebarFor (window : Window) : DecorationProvider :=
  match self.data? window with
  | none => self
  | some data =>
    let self := self.takeTitlebar window data
    -- `data->titlebar` is loaded again, after the exchange
    match self.data? window with
    | none => self
    | some data =>
      if data.titlebar.isSome then self.enqueueWork (.eraseTitlebar window)
      else self.setData window { data with onCreate := .eraseTitlebar window }

/-- `window_to_titlebar.erase`, with the destructor of the entry. -/
def eraseTitlebar (window : Window) : DecorationProvider :=
  let self := match (self.data? window).bind TitlebarData.titlebar with
    | some surface => self.release surface
    | none => self
  { self with windowToTitlebar := self.windowToTitlebar.erase window }

def perform : Work → DecorationProvider
  | .createTitlebar window =>
    let self := self.setData window ((self.data? window).getD {})
    { self with awaitingInsert := self.awaitingInsert ++ [window] }
  | .releaseTitlebar surface => self.release surface
  | .eraseTitlebar window => self.eraseTitlebar window

def runOnCreate : OnCreate → DecorationProvider
  | .nothing => self
  | .eraseTitlebar window => self.enqueueWork (.eraseTitlebar window)

/-- `insert`, on the data of a window. Without an entry the data is no longer there. -/
def insert (window : Window) (surface : MirWindow) : Option DecorationProvider :=
  match self.data? window with
  | none => none
  | some data =>
    let self := self.runOnCreate data.onCreate
    some { self.setData window { data with titlebar := some surface } with
      awaitingInsert := self.awaitingInsert.erase window }

end DecorationProvider

inductive DecorationStep where
  | createTitlebarFor (window : Window)
  | doWork
  | insert (window : Window) (surface : MirWindow)
  | destroyTitlebarFor (window : Window)
  deriving DecidableEq

def DecorationStep.run (self : DecorationProvider) : DecorationStep → Option DecorationProvider
  | createTitlebarFor window => some (self.createTitlebarFor window)
  | doWork =>
    match self.workQueue with
    | [] => none
    | work :: rest => some ({ self with workQueue := rest }.perform work)
  | insert window surface =>
    if window ∈ self.awaitingInsert then self.insert window surface else none
  | destroyTitlebarFor window => some (self.destroyTitlebarFor window)

/-- What the order of the steps respects: the window asks for one titlebar, and gives it up
once, after the item that creates it has run; each callback brings a surface of its own. -/
def DecorationStep.Permitted (window : Window) (steps : List DecorationStep)
    (self : DecorationProvider) : DecorationStep → Prop
  | createTitlebarFor v => v = window → createTitlebarFor v ∉ steps
  | doWork => True
  | insert _ surface => ∀ v, insert v surface ∉ steps
  | destroyTitlebarFor v => v = window →
    createTitlebarFor v ∈ steps ∧ .createTitlebar v ∉ self.workQueue ∧
      destroyTitlebarFor v ∉ steps

/-- The steps taken, in order, and the provider they lead to. The order is to be right for
one window; others may come and go as they like. -/
inductive DecorationRun (window : Window) : List DecorationStep → DecorationProvider → Prop where
  | initial : DecorationRun window [] .initial
  | step {steps : List DecorationStep} {s t : DecorationProvider} {step : DecorationStep} :
      DecorationRun window steps s → step.Permitted window steps s → step.run s = some t →
      DecorationRun window (steps ++ [step]) t

/-- The titlebar is given up before its surface arrives. -/
def DestroyedFirst (window : Window) (steps : List DecorationStep) : Prop :=
  ∃ front surface back, steps = front ++ .insert window surface :: back ∧
    .destroyTitlebarFor window ∈ front

/-- What a window's titlebar goes through. `leaked` is where it ends up if its surface arrives
before it is given up. -/
inductive Stage where
  | unrequested | requested | created | doomed
  | titled (surface : MirWindow)
  | leaked (surface : MirWindow)
  | closing (surface : MirWindow)
  | closed (surface : MirWindow)

namespace Stage

def entry (window : Window) : Stage → Option TitlebarData
  | unrequested | requested | closed _ => none
  | created => some {}
  | doomed | leaked _ => some { onCreate := .eraseTitlebar window }
  | titled surface => some { titlebar := some surface }
  | closing surface => some { titlebar := some surface, onCreate := .eraseTitlebar window }

def creating : Stage → Nat
  | requested => 1
  | _ => 0

def erasing : Stage → Nat
  | closing _ => 1
  | _ => 0

def awaiting : Stage → Nat
  | created | doomed => 1
  | _ => 0

def surface? : Stage → Option MirWindow
  | titled surface | leaked surface | closing surface | closed surface => some surface
  | _ => none

/-- How often the surface has been released, or is going to be by an item in the queue. -/
def releases : Stage → Nat
  | leaked _ | closed _ => 1
  | _ => 0

def wasRequested : Stage → Bool
  | unrequested => false
  | _ => true

def wasDestroyed : Stage → Bool
  | doomed | leaked _ | closing _ | closed _ => true
  | _ => false

def wasDestroyedFirst : Stage → Bool
  | closing _ | closed _ => true
  | _ => false

end Stage

/-- How often a surface has been released or is about to be. -/
def DecorationProvider.releases (s : DecorationProvider) (surface : MirWindow) : Nat :=
  s.workQueue.count (.releaseTitlebar surface) + s.released.count surface

/-- The stage tells all there is about a window after some steps. -/
structure Stage.Holds (window : Window) (steps : List DecorationStep) (s : DecorationProvider)
    (stage : Stage) : Prop where
  entry : s.data? window = stage.entry window
  creating : s.workQueue.count (.createTitlebar window) = stage.creating
  erasing : s.workQueue.count (.eraseTitlebar window) = stage.erasing
  awaiting : s.awaitingInsert.count window = stage.awaiting
  releases : ∀ surface ∈ stage.surface?, s.releases surface = stage.releases
  requested : .createTitlebarFor window ∈ steps ↔ stage.wasRequested
  destroyed : .destroyTitlebarFor window ∈ steps ↔ stage.wasDestroyed
  inserted : ∀ surface, .insert window surface ∈ steps ↔ stage.surface? = some surface
  first : DestroyedFirst window steps ↔ stage.wasDestroyedFirst

/-- What holds of all windows: a surface, and the erasure of an entry, belong to one window. -/
structure Distinct (steps : List DecorationStep) (s : DecorationProvider) : Prop where
  shown : ∀ window data surface, s.data? window = some data → data.titlebar = some surface →
    .insert window surface ∈ steps
  single : ∀ window window' surface, .insert window surface ∈ steps →
    .insert window' surface ∈ steps → window = window'
  clean : ∀ surface, (∀ window, .insert window surface ∉ steps) → s.releases surface = 0
  own : ∀ window data window', s.data? window = some data →
    data.onCreate = .eraseTitlebar window' → window' = window

namespace DecorationProvider

variable {s : DecorationProvider} {v w : Window} {data : TitlebarData}

@[simp] theorem data?_setData : (s.setData w data).data? v =
    if v = w then some data else s.data? v := by
  by_cases eq : v = w
  · subst eq
    simp [data?, setData]
  · simp [data?, setData, eq]

/-- The titlebar, if it is there, is queued for release; the entry stays. -/
theorem destroyTitlebarFor_eq (here : s.data? w = some data) : s.destroyTitlebarFor w =
    { s.setData w { onCreate := .eraseTitlebar w } with
      workQueue := s.workQueue ++ data.titlebar.toList.map .releaseTitlebar } := by
  unfold destroyTitlebarFor takeTitlebar
  rw [here]
  cases data with
  | mk titlebar onCreate =>
    cases titlebar with
    | none => simp [here, setData]
    | some surface =>
      simp [data?, setData, enqueueWork]

theorem eraseTitlebar_eq : s.eraseTitlebar w =
    { s with
      windowToTitlebar := s.windowToTitlebar.erase w
      released := s.released ++ ((s.data? w).bind TitlebarData.titlebar).toList } := by
  unfold eraseTitlebar
  cases (s.data? w).bind TitlebarData.titlebar with
  | none => simp
  | some surface => rfl

theorem data?_eraseTitlebar :
    (s.eraseTitlebar w).data? v = if v = w then none else s.data? v := by
  rw [eraseTitlebar_eq]
  by_cases eq : v = w
  · subst eq
    simp [data?]
  · simp [data?, eq]

theorem destroyTitlebarFor_none (absent : s.data? w = none) : s.destroyTitlebarFor w = s := by
  rw [destroyTitlebarFor, absent]

theorem insert_eq (here : s.data? w = some data) (surface : MirWindow) :
    s.insert w surface = some { s.setData w { data with titlebar := some surface } with
      workQueue := (s.runOnCreate data.onCreate).workQueue
      awaitingInsert := s.awaitingInsert.erase w } := by
  unfold insert
  rw [here]
  cases data with
  | mk titlebar onCreate => cases onCreate <;> rfl

end DecorationProvider

theorem destroyedFirst_concat {window : Window} {steps : List DecorationStep}
    {step : DecorationStep} : DestroyedFirst window (steps ++ [step]) ↔
      DestroyedFirst window steps ∨
        (∃ surface, step = .insert window surface) ∧ .destroyTitlebarFor window ∈ steps := by
  constructor
  · rintro ⟨front, surface, back, eq, before⟩
    rcases List.eq_nil_or_concat back with rfl | ⟨rest, last, rfl⟩
    · obtain ⟨rfl, same⟩ := List.append_inj' eq rfl
      exact .inr ⟨⟨surface, List.singleton_inj.mp same⟩, before⟩
    · rw [List.concat_eq_append, ← List.cons_append, ← List.append_assoc] at eq
      obtain ⟨rfl, -⟩ := List.append_inj' eq rfl
      exact .inl ⟨front, surface, rest, rfl, before⟩
  · intro either
    rcases either with ⟨front, surface, back, rfl, before⟩ | ⟨⟨surface, rfl⟩, before⟩
    · exact ⟨front, surface, back ++ [step], by simp, before⟩
    · exact ⟨steps, surface, [], rfl, before⟩

/-- Whether a step is one of the three that name a window. -/
def DecorationStep.names (window : Window) : DecorationStep → Prop
  | createTitlebarFor v | destroyTitlebarFor v | insert v _ => v = window
  | doWork => False

section Steps

variable {w : Window} {steps : List DecorationStep} {s t : DecorationProvider}
  {step : DecorationStep} {stage : Stage}

/-- A step that does not name the window, and leaves alone what is kept of it. -/
theorem Stage.Holds.frame (h : stage.Holds w steps s) (other : ¬step.names w)
    (entry : t.data? w = s.data? w)
    (creating : t.workQueue.count (.createTitlebar w) = s.workQueue.count (.createTitlebar w))
    (erasing : t.workQueue.count (.eraseTitlebar w) = s.workQueue.count (.eraseTitlebar w))
    (awaiting : t.awaitingInsert.count w = s.awaitingInsert.count w)
    (releases : ∀ surface ∈ stage.surface?, t.releases surface = s.releases surface) :
    stage.Holds w (steps ++ [step]) t where
  entry := entry.trans h.entry
  creating := creating.trans h.creating
  erasing := erasing.trans h.erasing
  awaiting := awaiting.trans h.awaiting
  releases surface mine := (releases surface mine).trans (h.releases surface mine)
  requested := by
    have ne : step ≠ .createTitlebarFor w := by rintro rfl; exact other rfl
    simp [Ne.symm ne, h.requested]
  destroyed := by
    have ne : step ≠ .destroyTitlebarFor w := by rintro rfl; exact other rfl
    simp [Ne.symm ne, h.destroyed]
  inserted surface := by
    have ne : step ≠ .insert w surface := by rintro rfl; exact other rfl
    simp [Ne.symm ne, h.inserted]
  first := by
    have ne : ¬∃ surface, step = .insert w surface := by rintro ⟨surface, rfl⟩; exact other rfl
    simp [destroyedFirst_concat, ne, h.first]

theorem Stage.Holds.createTitlebarFor (h : stage.Holds w steps s) (v : Window)
    (permitted : (DecorationStep.createTitlebarFor v).Permitted w steps s) :
    ∃ stage' : Stage, stage'.Holds w (steps ++ [.createTitlebarFor v]) (s.createTitlebarFor v) := by
  by_cases eq : v = w
  · subst eq
    have fresh := mt h.requested.mpr (permitted rfl)
    cases stage with
    | unrequested =>
      refine ⟨.requested, h.entry, ?_, ?_, h.awaiting, by simp [Stage.surface?], ?_, ?_, ?_, ?_⟩
      · simpa [DecorationProvider.createTitlebarFor, DecorationProvider.enqueueWork,
          Stage.creating] using h.creating
      · simpa [DecorationProvider.createTitlebarFor, DecorationProvider.enqueueWork,
          Stage.erasing] using h.erasing
      · simp [Stage.wasRequested]
      · simpa [Stage.wasDestroyed] using h.destroyed
      · simpa [Stage.surface?] using h.inserted
      · simpa [destroyedFirst_concat, Stage.wasDestroyedFirst] using h.first
    | _ => simp [Stage.wasRequested] at fresh
  · refine ⟨stage, h.frame eq rfl ?_ ?_ rfl fun surface _ => ?_⟩
    · simp [DecorationProvider.createTitlebarFor, DecorationProvider.enqueueWork, eq]
    · simp [DecorationProvider.createTitlebarFor, DecorationProvider.enqueueWork]
    · simp [DecorationProvider.releases, DecorationProvider.createTitlebarFor,
        DecorationProvider.enqueueWork]

theorem Stage.Holds.destroyTitlebarFor (h : stage.Holds w steps s) (v : Window)
    (distinct : Distinct steps s)
    (permitted : (DecorationStep.destroyTitlebarFor v).Permitted w steps s) :
    ∃ stage' : Stage,
      stage'.Holds w (steps ++ [.destroyTitlebarFor v]) (s.destroyTitlebarFor v) := by
  by_cases eq : v = w
  · subst eq
    obtain ⟨asked, run, first⟩ := permitted rfl
    have requested := h.requested.mp asked
    have undestroyed := mt h.destroyed.mpr first
    cases stage with
    | created =>
      rw [DecorationProvider.destroyTitlebarFor_eq h.entry]
      refine ⟨.doomed, ?_, ?_, ?_, h.awaiting, by simp [Stage.surface?], ?_, ?_, ?_, ?_⟩
      · simp [DecorationProvider.data?, DecorationProvider.setData, Stage.entry]
      · simpa [Stage.creating] using h.creating
      · simpa [Stage.erasing] using h.erasing
      · simpa [Stage.wasRequested] using asked
      · simp [Stage.wasDestroyed]
      · simpa [Stage.surface?] using h.inserted
      · simpa [destroyedFirst_concat, Stage.wasDestroyedFirst] using h.first
    | titled surface =>
      rw [DecorationProvider.destroyTitlebarFor_eq h.entry]
      refine ⟨.leaked surface, ?_, ?_, ?_, h.awaiting, ?_, ?_, ?_, ?_, ?_⟩
      · simp [DecorationProvider.data?, DecorationProvider.setData, Stage.entry]
      · simpa [Stage.creating] using h.creating
      · simpa [Stage.erasing] using h.erasing
      · have unreleased := h.releases surface rfl
        simp only [DecorationProvider.releases, Stage.releases] at unreleased
        simp [DecorationProvider.releases, DecorationProvider.setData, Stage.surface?,
          Stage.releases]
        omega
      · simpa [Stage.wasRequested] using asked
      · simp [Stage.wasDestroyed]
      · simpa [Stage.surface?] using h.inserted
      · simpa [destroyedFirst_concat, Stage.wasDestroyedFirst] using h.first
    | unrequested => simp [Stage.wasRequested] at requested
    | requested =>
      have queued := h.creating
      rw [List.count_eq_zero.mpr run] at queued
      simp [Stage.creating] at queued
    | _ => simp [Stage.wasDestroyed] at undestroyed
  · cases here : s.data? v with
    | none =>
      rw [DecorationProvider.destroyTitlebarFor_none here]
      exact ⟨stage, h.frame eq rfl rfl rfl rfl fun _ _ => rfl⟩
    | some data =>
      rw [DecorationProvider.destroyTitlebarFor_eq here]
      refine ⟨stage, h.frame eq ?_ ?_ ?_ rfl fun surface mine => ?_⟩
      · exact DecorationProvider.data?_setData.trans (if_neg (Ne.symm eq))
      · cases data.titlebar <;> simp
      · cases data.titlebar <;> simp
      · cases shown : data.titlebar with
        | none => simp [DecorationProvider.releases, DecorationProvider.setData]
        | some other =>
          have ne : other ≠ surface := by
            rintro rfl
            exact eq (distinct.single _ _ _ (distinct.shown _ _ _ here shown)
              ((h.inserted other).mpr mine))
          simp [DecorationProvider.releases, DecorationProvider.setData, ne]

theorem Stage.Holds.inserted_first {surface : MirWindow} (h : stage.Holds w steps s)
    (bare : stage.surface? = none) (other : MirWindow) :
    .insert w other ∈ steps ++ [.insert w surface] ↔ some surface = some other := by
  have fresh := h.inserted other
  simp only [bare, reduceCtorEq, iff_false] at fresh
  simp [fresh, eq_comm]

theorem Stage.Holds.insert (h : stage.Holds w steps s) (v : Window) (surface : MirWindow)
    (distinct : Distinct steps s)
    (permitted : (DecorationStep.insert v surface).Permitted w steps s)
    (pending : v ∈ s.awaitingInsert) (inserted : s.insert v surface = some t) :
    ∃ stage' : Stage, stage'.Holds w (steps ++ [.insert v surface]) t := by
  have clean := distinct.clean surface permitted
  cases here : s.data? v with
  | none => simp [DecorationProvider.insert, here] at inserted
  | some data =>
    rw [DecorationProvider.insert_eq here] at inserted
    obtain rfl := Option.some.inj inserted
    by_cases eq : v = w
    · subst eq
      have waits : 0 < stage.awaiting := h.awaiting ▸ List.count_pos_iff.mpr pending
      have mine : some data = stage.entry v := here.symm.trans h.entry
      cases stage with
      | created =>
        obtain rfl := Option.some.inj mine
        refine ⟨.titled surface, ?_, h.creating, h.erasing, ?_, ?_, ?_, ?_, ?_, ?_⟩
        · exact DecorationProvider.data?_setData.trans (if_pos rfl)
        · have once := h.awaiting
          simp_all [Stage.awaiting]
        · simpa [DecorationProvider.releases, DecorationProvider.runOnCreate,
            DecorationProvider.setData, Stage.surface?, Stage.releases] using clean
        · simpa [Stage.wasRequested] using h.requested
        · simpa [Stage.wasDestroyed] using h.destroyed
        · exact h.inserted_first rfl
        · have undestroyed := h.destroyed
          have notFirst := h.first
          simp_all [destroyedFirst_concat, Stage.wasDestroyedFirst, Stage.wasDestroyed]
      | doomed =>
        obtain rfl := Option.some.inj mine
        refine ⟨.closing surface, ?_, ?_, ?_, ?_, ?_, ?_, ?_, ?_, ?_⟩
        · exact DecorationProvider.data?_setData.trans (if_pos rfl)
        · simpa [DecorationProvider.runOnCreate, DecorationProvider.enqueueWork, Stage.creating]
            using h.creating
        · simpa [DecorationProvider.runOnCreate, DecorationProvider.enqueueWork, Stage.erasing]
            using h.erasing
        · have once := h.awaiting
          simp_all [Stage.awaiting]
        · simpa [DecorationProvider.releases, DecorationProvider.runOnCreate,
            DecorationProvider.enqueueWork, DecorationProvider.setData, Stage.surface?,
            Stage.releases] using clean
        · simpa [Stage.wasRequested] using h.requested
        · simpa [Stage.wasDestroyed] using h.destroyed
        · exact h.inserted_first rfl
        · have destroyed := h.destroyed
          simp_all [destroyedFirst_concat, Stage.wasDestroyedFirst, Stage.wasDestroyed]
      | _ => simp [Stage.awaiting] at waits
    · refine ⟨stage, h.frame eq ?_ ?_ ?_ ?_ fun other _ => ?_⟩
      · exact DecorationProvider.data?_setData.trans (if_neg (Ne.symm eq))
      · cases data.onCreate <;> simp [DecorationProvider.runOnCreate, DecorationProvider.enqueueWork]
      · cases erases : data.onCreate with
        | nothing => simp [DecorationProvider.runOnCreate]
        | eraseTitlebar u =>
          obtain rfl := distinct.own v data u here erases
          simp [DecorationProvider.runOnCreate, DecorationProvider.enqueueWork, eq]
      · exact List.count_erase_of_ne (Ne.symm eq)
      · cases data.onCreate <;> simp [DecorationProvider.releases, DecorationProvider.runOnCreate,
          DecorationProvider.enqueueWork, DecorationProvider.setData]

theorem Stage.Holds.worked (h : stage.Holds w steps s) (stage' : Stage)
    (history : stage'.wasRequested = stage.wasRequested ∧
      stage'.wasDestroyed = stage.wasDestroyed ∧ stage'.surface? = stage.surface? ∧
      stage'.wasDestroyedFirst = stage.wasDestroyedFirst)
    (entry : t.data? w = stage'.entry w)
    (creating : t.workQueue.count (.createTitlebar w) = stage'.creating)
    (erasing : t.workQueue.count (.eraseTitlebar w) = stage'.erasing)
    (awaiting : t.awaitingInsert.count w = stage'.awaiting)
    (releases : ∀ surface ∈ stage'.surface?, t.releases surface = stage'.releases) :
    stage'.Holds w (steps ++ [.doWork]) t where
  entry := entry
  creating := creating
  erasing := erasing
  awaiting := awaiting
  releases := releases
  requested := by simpa [history.1] using h.requested
  destroyed := by simpa [history.2.1] using h.destroyed
  inserted := by simpa [history.2.2.1] using h.inserted
  first := by simpa [destroyedFirst_concat, history.2.2.2] using h.first

theorem Stage.Holds.doWork (h : stage.Holds w steps s) (distinct : Distinct steps s)
    {work : Work} {rest : List Work} (queue : s.workQueue = work :: rest) :
    ∃ stage' : Stage,
      stage'.Holds w (steps ++ [.doWork]) ({ s with workQueue := rest }.perform work) := by
  have entry := h.entry
  have creating := h.creating
  have erasing := h.erasing
  have awaiting := h.awaiting
  have releases := h.releases
  simp only [queue, DecorationProvider.releases, List.count_cons, beq_iff_eq]
    at creating erasing releases
  cases work with
  | createTitlebar v =>
    by_cases eq : v = w
    · subst eq
      cases stage with
      | requested =>
        refine ⟨.created, h.worked _ ⟨rfl, rfl, rfl, rfl⟩ ?_ ?_ ?_ ?_ (by simp [Stage.surface?])⟩
        · have absent : ({ s with workQueue := rest } : DecorationProvider).data? v = none := entry
          exact DecorationProvider.data?_setData.trans (by simp [absent, Stage.entry])
        · simpa [Stage.creating, DecorationProvider.perform, DecorationProvider.setData]
            using creating
        · simpa [Stage.erasing, DecorationProvider.perform, DecorationProvider.setData]
            using erasing
        · simpa [Stage.awaiting, DecorationProvider.perform, DecorationProvider.setData]
            using awaiting
      | _ => simp [Stage.creating] at creating
    · refine ⟨stage, h.worked stage ⟨rfl, rfl, rfl, rfl⟩ ?_ ?_ ?_ ?_ fun surface mine => ?_⟩
      · exact (DecorationProvider.data?_setData.trans (if_neg (Ne.symm eq))).trans entry
      · simpa [eq, DecorationProvider.perform, DecorationProvider.setData] using creating
      · simpa [eq, DecorationProvider.perform, DecorationProvider.setData] using erasing
      · simpa [eq, DecorationProvider.perform, DecorationProvider.setData] using awaiting
      · simpa [DecorationProvider.releases, DecorationProvider.perform,
          DecorationProvider.setData] using releases surface mine
  | releaseTitlebar released =>
    refine ⟨stage, h.worked stage ⟨rfl, rfl, rfl, rfl⟩ entry ?_ ?_ awaiting fun surface mine => ?_⟩
    · simpa [DecorationProvider.perform, DecorationProvider.release] using creating
    · simpa [DecorationProvider.perform, DecorationProvider.release] using erasing
    · have total := releases surface mine
      simp only [DecorationProvider.releases, DecorationProvider.perform,
        DecorationProvider.release, List.count_append, List.count_singleton, beq_iff_eq,
        Work.releaseTitlebar.injEq] at total ⊢
      omega
  | eraseTitlebar v =>
    by_cases eq : v = w
    · subst eq
      cases stage with
      | closing surface =>
        have mine : ({ s with workQueue := rest } : DecorationProvider).data? v =
          some { titlebar := some surface, onCreate := .eraseTitlebar v } := entry
        refine ⟨.closed surface, h.worked _ ⟨rfl, rfl, rfl, rfl⟩ ?_ ?_ ?_ ?_ ?_⟩
        · exact DecorationProvider.data?_eraseTitlebar.trans (if_pos rfl)
        · rw [DecorationProvider.perform, DecorationProvider.eraseTitlebar_eq]
          simpa [Stage.creating] using creating
        · rw [DecorationProvider.perform, DecorationProvider.eraseTitlebar_eq]
          simpa [Stage.erasing] using erasing
        · rw [DecorationProvider.perform, DecorationProvider.eraseTitlebar_eq]
          simpa [Stage.awaiting] using awaiting
        · rw [DecorationProvider.perform, DecorationProvider.eraseTitlebar_eq, mine]
          have unreleased := releases surface rfl
          simp only [Stage.releases] at unreleased
          simp [DecorationProvider.releases, Stage.surface?, Stage.releases]
          omega
      | _ => simp [Stage.erasing] at erasing
    · refine ⟨stage, h.worked stage ⟨rfl, rfl, rfl, rfl⟩ ?_ ?_ ?_ ?_ fun surface mine => ?_⟩
      · exact (DecorationProvider.data?_eraseTitlebar.trans (if_neg (Ne.symm eq))).trans entry
      · rw [DecorationProvider.perform, DecorationProvider.eraseTitlebar_eq]
        simpa using creating
      · rw [DecorationProvider.perform, DecorationProvider.eraseTitlebar_eq]
        simpa [eq] using erasing
      · rw [DecorationProvider.perform, DecorationProvider.eraseTitlebar_eq]
        exact awaiting
      · rw [DecorationProvider.perform, DecorationProvider.eraseTitlebar_eq]
        have total := releases surface mine
        have apart : surface ∉ ((s.data? v).bind TitlebarData.titlebar).toList := by
          rw [Option.mem_toList, Option.bind_eq_some_iff]
          rintro ⟨data, here, shown⟩
          exact eq (distinct.single _ _ _ (distinct.shown _ _ _ here shown)
            ((h.inserted surface).mpr mine))
        have none : (((s.data? v).bind TitlebarData.titlebar).toList).count surface = 0 :=
          List.count_eq_zero.mpr apart
        simp only [reduceCtorEq, ↓reduceIte, Nat.add_zero] at total
        simp only [DecorationProvider.releases, List.count_append]
        change _ + (_ + (((s.data? v).bind TitlebarData.titlebar).toList).count surface) = _
        rw [none, Nat.add_zero]
        exact total

theorem DecorationStep.run_doWork (run : DecorationStep.doWork.run s = some t) :
    ∃ work rest, s.workQueue = work :: rest ∧ t = { s with workQueue := rest }.perform work := by
  simp only [DecorationStep.run] at run
  split at run
  · contradiction
  · rename_i work rest queue
    exact ⟨work, rest, queue, (Option.some.inj run).symm⟩

theorem DecorationStep.run_insert {v : Window} {surface : MirWindow}
    (run : (DecorationStep.insert v surface).run s = some t) :
    v ∈ s.awaitingInsert ∧ s.insert v surface = some t := by
  simp only [DecorationStep.run] at run
  split at run
  · exact ⟨‹_›, run⟩
  · contradiction

theorem Stage.Holds.next (h : stage.Holds w steps s) (distinct : Distinct steps s)
    (permitted : step.Permitted w steps s) (run : step.run s = some t) :
    ∃ stage' : Stage, stage'.Holds w (steps ++ [step]) t := by
  cases step with
  | createTitlebarFor v =>
    obtain rfl := Option.some.inj run
    exact h.createTitlebarFor v permitted
  | doWork =>
    obtain ⟨work, rest, queue, rfl⟩ := DecorationStep.run_doWork run
    exact h.doWork distinct queue
  | insert v surface =>
    obtain ⟨pending, inserted⟩ := DecorationStep.run_insert run
    exact h.insert v surface distinct permitted pending inserted
  | destroyTitlebarFor v =>
    obtain rfl := Option.some.inj run
    exact h.destroyTitlebarFor v distinct permitted

/-- A step that makes no titlebar keeps surfaces apart, if it shows and releases none but
those that were shown. -/
theorem Distinct.kept (h : Distinct steps s) (quiet : ∀ v surface, step ≠ .insert v surface)
    (shown : ∀ v data surface, t.data? v = some data → data.titlebar = some surface →
      ∃ data', s.data? v = some data' ∧ data'.titlebar = some surface)
    (released : ∀ surface, s.releases surface < t.releases surface →
      ∃ v data, s.data? v = some data ∧ data.titlebar = some surface)
    (own : ∀ v data u, t.data? v = some data → data.onCreate = .eraseTitlebar u → u = v) :
    Distinct (steps ++ [step]) t := by
  have same (v : Window) (surface : MirWindow) :
      .insert v surface ∈ steps ++ [step] ↔ .insert v surface ∈ steps := by
    simp [Ne.symm (quiet v surface)]
  refine ⟨fun v data surface here titlebar => ?_, ?_, fun surface unseen => ?_, own⟩
  · obtain ⟨data', here', titlebar'⟩ := shown v data surface here titlebar
    exact (same v surface).mpr (h.shown v data' surface here' titlebar')
  · simpa only [same] using h.single
  · simp only [same] at unseen
    by_contra more
    have clean := h.clean surface unseen
    obtain ⟨v, data, here, titlebar⟩ := released surface (by omega)
    exact unseen v (h.shown v data surface here titlebar)

theorem DecorationProvider.data?_setData_cases {u : Window} {data' : TitlebarData}
    (there : (s.setData v data').data? u = some data) :
    (u = v ∧ data = data') ∨ s.data? u = some data := by
  rw [data?_setData] at there
  split at there
  · exact .inl ⟨‹_›, (Option.some.inj there).symm⟩
  · exact .inr there

namespace Distinct

variable {rest : List Work}

theorem releases_tail {work : Work} (queue : s.workQueue = work :: rest) (surface : MirWindow) :
    rest.count (.releaseTitlebar surface) ≤ s.workQueue.count (.releaseTitlebar surface) := by
  rw [queue]
  exact List.count_le_count_cons

theorem createTitlebar (h : Distinct steps s) (queue : s.workQueue = .createTitlebar v :: rest) :
    Distinct (steps ++ [.doWork])
      (({ s with workQueue := rest } : DecorationProvider).perform (.createTitlebar v)) := by
  have found (u : Window) (data : TitlebarData)
      (here : (({ s with workQueue := rest } : DecorationProvider).perform
        (.createTitlebar v)).data? u = some data) : s.data? u = some data ∨ data = {} := by
    rw [DecorationProvider.perform] at here
    rcases DecorationProvider.data?_setData_cases here with ⟨rfl, rfl⟩ | here
    · change s.data? u = some ((s.data? u).getD {}) ∨ (s.data? u).getD {} = {}
      cases s.data? u with
      | none => exact .inr rfl
      | some data' => exact .inl rfl
    · exact .inl here
  refine h.kept (by simp) ?_ ?_ ?_
  · intro u data surface here titlebar
    rcases found u data here with here | rfl
    · exact ⟨data, here, titlebar⟩
    · contradiction
  · intro surface more
    have := releases_tail queue surface
    simp [DecorationProvider.releases, DecorationProvider.perform,
      DecorationProvider.setData] at more
    omega
  · intro u data u' here erases
    rcases found u data here with here | rfl
    · exact h.own u data u' here erases
    · contradiction

theorem releaseTitlebar {surface : MirWindow} (h : Distinct steps s)
    (queue : s.workQueue = .releaseTitlebar surface :: rest) : Distinct (steps ++ [.doWork])
      (({ s with workQueue := rest } : DecorationProvider).perform (.releaseTitlebar surface)) := by
  refine h.kept (by simp) (fun _ data _ here titlebar => ⟨data, here, titlebar⟩) ?_ h.own
  intro other more
  simp [DecorationProvider.releases, DecorationProvider.perform, DecorationProvider.release,
    queue, List.count_cons, List.count_append] at more
  omega

theorem eraseTitlebar (h : Distinct steps s) (queue : s.workQueue = .eraseTitlebar v :: rest) :
    Distinct (steps ++ [.doWork])
      (({ s with workQueue := rest } : DecorationProvider).perform (.eraseTitlebar v)) := by
  have found (u : Window) (data : TitlebarData)
      (here : (({ s with workQueue := rest } : DecorationProvider).eraseTitlebar v).data? u =
        some data) : s.data? u = some data := by
    rw [DecorationProvider.data?_eraseTitlebar] at here
    split at here
    · contradiction
    · exact here
  refine h.kept (by simp) (fun u data _ here titlebar => ⟨data, found u data here, titlebar⟩) ?_
    fun u data u' here => h.own u data u' (found u data here)
  intro surface more
  have := releases_tail queue surface
  simp only [DecorationProvider.perform, DecorationProvider.eraseTitlebar_eq,
    DecorationProvider.releases, List.count_append] at more
  have shown : 0 < (((s.data? v).bind TitlebarData.titlebar).toList).count surface := by
    change _ < _ + (_ + (((s.data? v).bind TitlebarData.titlebar).toList).count surface) at more
    omega
  have member := List.count_pos_iff.mp shown
  rw [Option.mem_toList, Option.bind_eq_some_iff] at member
  obtain ⟨data, here, titlebar⟩ := member
  exact ⟨v, data, here, titlebar⟩

/-- A titlebar that has been made is a new one. -/
theorem insert {surface : MirWindow} (h : Distinct steps s) (fresh : ∀ u, .insert u surface ∉ steps)
    (here : s.data? v = some data) (run : s.insert v surface = some t) :
    Distinct (steps ++ [.insert v surface]) t := by
  rw [DecorationProvider.insert_eq here] at run
  obtain rfl := Option.some.inj run
  have found (u : Window) (data' : TitlebarData)
      (there : (s.setData v { data with titlebar := some surface }).data? u = some data') :
      (u = v ∧ data' = { data with titlebar := some surface }) ∨ s.data? u = some data' :=
    DecorationProvider.data?_setData_cases there
  refine ⟨fun u data' other there titlebar => ?_, fun u u' other one two => ?_,
    fun other unseen => ?_, fun u data' u' there erases => ?_⟩
  · rcases found u data' there with ⟨rfl, rfl⟩ | there
    · obtain rfl := Option.some.inj titlebar
      simp
    · exact List.mem_append_left _ (h.shown u data' other there titlebar)
  · simp only [List.mem_append, List.mem_singleton, DecorationStep.insert.injEq] at one two
    rcases one with one | ⟨rfl, rfl⟩ <;> rcases two with two | ⟨rfl, same⟩
    · exact h.single u u' other one two
    · exact absurd one (same ▸ fresh u)
    · exact absurd two (fresh u')
    · rfl
  · have before : ∀ u, .insert u other ∉ steps := fun u member => unseen u (by simp [member])
    have clean := h.clean other before
    cases data.onCreate <;> simpa [DecorationProvider.releases, DecorationProvider.runOnCreate,
      DecorationProvider.enqueueWork, DecorationProvider.setData] using clean
  · rcases found u data' there with ⟨rfl, rfl⟩ | there
    · exact h.own u data u' here erases
    · exact h.own u data' u' there erases

theorem destroyTitlebarFor (h : Distinct steps s) :
    Distinct (steps ++ [.destroyTitlebarFor v]) (s.destroyTitlebarFor v) := by
  cases here : s.data? v with
  | none =>
    rw [DecorationProvider.destroyTitlebarFor_none here]
    exact h.kept (by simp) (fun _ data _ here titlebar => ⟨data, here, titlebar⟩)
      (fun _ more => absurd more (Nat.lt_irrefl _)) h.own
  | some data =>
    rw [DecorationProvider.destroyTitlebarFor_eq here]
    have found (u : Window) (data' : TitlebarData)
        (there : (s.setData v { onCreate := .eraseTitlebar v }).data? u = some data') :
        (u = v ∧ data' = { onCreate := .eraseTitlebar v }) ∨ s.data? u = some data' :=
      DecorationProvider.data?_setData_cases there
    refine h.kept (by simp) (fun u data' other there titlebar => ?_) (fun surface more => ?_)
      fun u data' u' there erases => ?_
    · rcases found u data' there with ⟨rfl, rfl⟩ | there
      · contradiction
      · exact ⟨data', there, titlebar⟩
    · cases shown : data.titlebar with
      | none => simp [DecorationProvider.releases, DecorationProvider.setData, shown] at more
      | some held =>
        have mine : held = surface := by
          by_contra ne
          simp [DecorationProvider.releases, DecorationProvider.setData, shown, ne] at more
        exact ⟨v, data, here, mine ▸ shown⟩
    · rcases found u data' there with ⟨rfl, rfl⟩ | there
      · exact (OnCreate.eraseTitlebar.inj erases).symm
      · exact h.own u data' u' there erases

theorem next (h : Distinct steps s) (permitted : step.Permitted w steps s)
    (run : step.run s = some t) : Distinct (steps ++ [step]) t := by
  cases step with
  | createTitlebarFor v =>
    obtain rfl := Option.some.inj run
    refine h.kept (by simp) (fun _ data _ here titlebar => ⟨data, here, titlebar⟩) ?_ h.own
    intro surface more
    simp [DecorationProvider.releases, DecorationProvider.createTitlebarFor,
      DecorationProvider.enqueueWork] at more
  | doWork =>
    obtain ⟨work, rest, queue, rfl⟩ := DecorationStep.run_doWork run
    cases work with
    | createTitlebar v => exact h.createTitlebar queue
    | releaseTitlebar surface => exact h.releaseTitlebar queue
    | eraseTitlebar v => exact h.eraseTitlebar queue
  | insert v surface =>
    obtain ⟨pending, inserted⟩ := DecorationStep.run_insert run
    cases here : s.data? v with
    | none => simp [DecorationProvider.insert, here] at inserted
    | some data => exact h.insert permitted here inserted
  | destroyTitlebarFor v =>
    obtain rfl := Option.some.inj run
    exact h.destroyTitlebarFor

end Distinct

theorem DecorationRun.reaches (run : DecorationRun w steps s) :
    Distinct steps s ∧ ∃ stage : Stage, stage.Holds w steps s := by
  induction run with
  | initial =>
    refine ⟨⟨by simp [DecorationProvider.data?, DecorationProvider.initial], by simp,
      by simp [DecorationProvider.releases, DecorationProvider.initial],
      by simp [DecorationProvider.data?, DecorationProvider.initial]⟩, .unrequested, ?_⟩
    constructor <;> simp [DecorationProvider.data?, DecorationProvider.initial, Stage.entry,
      Stage.creating, Stage.erasing, Stage.awaiting, Stage.surface?, Stage.wasRequested,
      Stage.wasDestroyed, Stage.wasDestroyedFirst, DestroyedFirst]
  | step _ permitted ran ih =>
    obtain ⟨distinct, stage, holds⟩ := ih
    exact ⟨distinct.next permitted ran, holds.next distinct permitted ran⟩

end Steps

/-- When all is quiet, the titlebar of a destroyed window is gone and its surface released
once, if and only if it was given up before its surface arrived. -/
theorem titlebars_not_leaked {window : Window} {steps : List DecorationStep}
    {s : DecorationProvider} (run : DecorationRun window steps s)
    (destroyed : .destroyTitlebarFor window ∈ steps) (idle : s.workQueue = [])
    (settled : s.awaitingInsert = []) :
    (s.data? window = none ∧ ∃ surface, .insert window surface ∈ steps ∧
        s.released.count surface = 1) ↔
      DestroyedFirst window steps := by
  obtain ⟨-, stage, holds⟩ := run.reaches
  have erasing := holds.erasing
  have awaiting := holds.awaiting
  have gone := holds.destroyed.mp destroyed
  have entry := holds.entry
  rw [idle] at erasing
  rw [settled] at awaiting
  rw [holds.first]
  cases stage with
  | leaked surface => simp [entry, Stage.entry, Stage.wasDestroyedFirst]
  | closed surface =>
    have released := holds.releases surface rfl
    simp only [DecorationProvider.releases, idle, List.count_nil, Nat.zero_add,
      Stage.releases] at released
    simp only [Stage.wasDestroyedFirst, iff_true]
    exact ⟨entry, surface, (holds.inserted surface).mpr rfl, released⟩
  | doomed => simp [Stage.awaiting] at awaiting
  | closing surface => simp [Stage.erasing] at erasing
  | _ => simp [Stage.wasDestroyed] at gone

/-- A titlebar given up before its surface arrives. -/
theorem titlebars_not_leaked_early : ∃ s,
    DecorationRun ⟨1, 1⟩ [.createTitlebarFor ⟨1, 1⟩, .doWork, .destroyTitlebarFor ⟨1, 1⟩,
      .insert ⟨1, 1⟩ 7, .doWork] s ∧ s.data? ⟨1, 1⟩ = none := by
  have asked : DecorationRun ⟨1, 1⟩ [.createTitlebarFor ⟨1, 1⟩] _ :=
    DecorationRun.initial.step (by simp [DecorationStep.Permitted]) rfl
  have created : DecorationRun ⟨1, 1⟩ [.createTitlebarFor ⟨1, 1⟩, .doWork] _ :=
    asked.step trivial rfl
  have destroyed : DecorationRun ⟨1, 1⟩
      [.createTitlebarFor ⟨1, 1⟩, .doWork, .destroyTitlebarFor ⟨1, 1⟩] _ :=
    created.step (fun _ => by decide) rfl
  have inserted : DecorationRun ⟨1, 1⟩ [.createTitlebarFor ⟨1, 1⟩, .doWork,
      .destroyTitlebarFor ⟨1, 1⟩, .insert ⟨1, 1⟩ 7] _ :=
    destroyed.step (by simp [DecorationStep.Permitted]) rfl
  have ended : DecorationRun ⟨1, 1⟩ [.createTitlebarFor ⟨1, 1⟩, .doWork,
      .destroyTitlebarFor ⟨1, 1⟩, .insert ⟨1, 1⟩ 7, .doWork] _ :=
    inserted.step trivial rfl
  refine ⟨_, ended, ((titlebars_not_leaked ended (by decide) rfl rfl).mpr ?_).1⟩
  exact ⟨[.createTitlebarFor ⟨1, 1⟩, .doWork, .destroyTitlebarFor ⟨1, 1⟩], 7, [.doWork], rfl,
    by decide⟩

/-- A titlebar given up after its surface has arrived leaves its entry behind. -/
theorem titlebars_not_leaked_fails :
    ¬∀ window steps s, DecorationRun window steps s → .destroyTitlebarFor window ∈ steps →
      s.workQueue = [] → s.awaitingInsert = [] → s.data? window = none ∧
        ∃ surface, .insert window surface ∈ steps ∧ s.released.count surface = 1 := by
  intro claim
  have asked : DecorationRun ⟨1, 1⟩ [.createTitlebarFor ⟨1, 1⟩] _ :=
    DecorationRun.initial.step (by simp [DecorationStep.Permitted]) rfl
  have created : DecorationRun ⟨1, 1⟩ [.createTitlebarFor ⟨1, 1⟩, .doWork] _ :=
    asked.step trivial rfl
  have inserted : DecorationRun ⟨1, 1⟩
      [.createTitlebarFor ⟨1, 1⟩, .doWork, .insert ⟨1, 1⟩ 7] _ :=
    created.step (by simp [DecorationStep.Permitted]) rfl
  have destroyed : DecorationRun ⟨1, 1⟩ [.createTitlebarFor ⟨1, 1⟩, .doWork,
      .insert ⟨1, 1⟩ 7, .destroyTitlebarFor ⟨1, 1⟩] _ :=
    inserted.step (fun _ => by decide) rfl
  have ended : DecorationRun ⟨1, 1⟩ [.createTitlebarFor ⟨1, 1⟩, .doWork,
      .insert ⟨1, 1⟩ 7, .destroyTitlebarFor ⟨1, 1⟩, .doWork] _ :=
    destroyed.step trivial rfl
  exact absurd (claim _ _ _ ended (by decide) rfl rfl).1 (by decide)

end Miral
