import Miral.Refinement

/-! What holds in every state a run can reach: the cross references agree, the trees are
acyclic as long as no request closes a loop, and whole trees share their workspaces as long
as no request joins trees of different workspaces. -/
namespace Miral

open Program Prog Forest Model

/-- The operation makes a window a child of itself or of a window below it. -/
def Op.ClosesLoop (s : Model) (op : Op) : Prop :=
  ∃ w p, op.links s w p ∧ Above s.parentOf w p

/-- The operation links two windows that are not in the same workspaces. -/
def Op.JoinsApart (s : Model) (op : Op) : Prop :=
  ∃ w p, op.links s w p ∧ ∃ k, ¬(k ∈ s.workspacesContaining w ↔ k ∈ s.workspacesContaining p)

variable {s : Model}

theorem Reachable.integrity (reachable : Reachable (fun s op => op.Contract s) s) :
    s.Integrity := by
  apply reachable.invariant Model.Integrity Integrity.initial
  intro s op fuel integrity contract
  exact (follows_run fuel op integrity contract).mono (fun _ _ h => h.1) (fun _ _ h => h.1) id

/-- Integrity and a property of groves hold together in every reachable state, if every
allowed change of the grove keeps the property. -/
theorem Reachable.grove {allowed : Model → Op → Prop} (property : Grove Window Workspace → Prop)
    (initial : ∀ focusController displayLayout,
      property (Model.initial focusController displayLayout).grove)
    (kept : ∀ s op g, property s.grove → allowed s op → Grove.Step (op.links s) s.grove g →
      property g)
    (reachable : Reachable (fun s op => op.Contract s ∧ allowed s op) s) :
    s.Integrity ∧ property s.grove := by
  refine reachable.invariant (fun s => s.Integrity ∧ property s.grove)
    (fun focusController displayLayout => ⟨.initial _ _, initial focusController displayLayout⟩) ?_
  rintro s op fuel ⟨integrity, holds⟩ ⟨contract, allow⟩
  have keep (t : Model) (h : Follows (op.links s) s.grove t) : t.Integrity ∧ property t.grove :=
    ⟨h.1, kept s op t.grove holds allow h.2⟩
  exact (follows_run fuel op integrity contract).mono (fun _ t => keep t) (fun _ t => keep t) id

theorem Reachable.acyclic
    (reachable : Reachable (fun s op => op.Contract s ∧ ¬op.ClosesLoop s) s) :
    s.Integrity ∧ s.Acyclic := by
  have result := reachable.grove Grove.Acyclic (fun _ _ v => .of_root rfl) ?_
  · exact ⟨result.1, fun w _ => result.2 w⟩
  · intro s op g acyclic open' step
    exact step.acyclic acyclic fun v p link above => open' ⟨v, p, link, above⟩

theorem Reachable.uniform
    (reachable : Reachable (fun s op => op.Contract s ∧ ¬op.JoinsApart s) s) :
    s.Integrity ∧ s.grove.Uniform := by
  apply reachable.grove Grove.Uniform (fun _ _ _ _ link => by contradiction)
  intro s op g uniform together step
  apply step.uniform uniform
  intro w p link k
  by_contra apart
  exact together ⟨w, p, link, k, apart⟩

/-- In an acyclic state the walks over the tree of a window end. -/
theorem Model.Acyclic.walks (acyclic : s.Acyclic) (integrity : s.Integrity) :
    ∃ n, ∀ fuel ≥ n, ∀ w, s.Managed w →
      (∃ r t, selectActiveWindow fuel (some w) s = .returned r t) ∧
      (∃ t, raiseTree fuel w s = .returned () t) ∧
      (∀ movement, ∃ t, moveTree fuel w movement s = .returned () t) ∧
      (∃ root, rootOf fuel w s = .returned root s) ∧
      ∀ k, (∃ t, addTreeToWorkspace fuel (some w) k s = .returned () t) ∧
        ∃ t, removeTreeFromWorkspace fuel (some w) k s = .returned () t := by
  obtain ⟨d, bound⟩ := acyclic.exists_depth
  refine ⟨4 * d, fun fuel le w managed => ?_⟩
  have live := (integrity.live w).mpr managed
  have enough : ¬s.Short fuel := fun short => Nat.not_lt.mpr le (short d bound)
  have pos := bound.pos
  refine ⟨?_, ?_, fun movement => ?_, ?_, fun k => ⟨?_, ?_⟩⟩
  · obtain ⟨r, t, run, -⟩ := (ensures_selectActiveWindow integrity live).returns enough
    exact ⟨r, t, run⟩
  · have raising : (raiseTree fuel w).Ensures s _ _ _ := ensures_raiseTree integrity managed
    obtain ⟨_, t, run, -⟩ := raising.returns fun short => by
      have := short d d bound (bound w)
      omega
    exact ⟨t, run⟩
  · have moving : (moveTree fuel w movement).Ensures s _ _ _ :=
      ensures_moveTree integrity live movement
    obtain ⟨_, t, run, -⟩ := moving.returns fun short => by
      have := short d 0 w bound rfl
      omega
    exact ⟨t, run⟩
  · have searching : (rootOf fuel w).Ensures s _ _ _ := ensures_rootOf integrity.toLinked managed
    obtain ⟨root, t, run, rfl, -⟩ := searching.returns fun short => by
      have := short d d bound (bound w)
      omega
    exact ⟨root, run⟩
  · obtain ⟨_, t, run, -⟩ := (ensures_addTreeToWorkspace integrity.toLinked).returns enough
    exact ⟨t, run⟩
  · obtain ⟨_, t, run, -⟩ := (ensures_removeTreeFromWorkspace integrity.toLinked).returns enough
    exact ⟨t, run⟩

def Op.asksParent : Op → Bool
  | modifySurface _ modifications => modifications.parent.isSome
  | modifyWindow _ modifications => modifications.parent.isSome
  | _ => false

theorem Op.asksParent_of_links {op : Op} {w p : Window} (link : op.links s w p) :
    op.asksParent := by
  cases op with
  | modifySurface w modifications =>
    have asks := link.1.2.1
    rw [WindowSpecification.ofSurfaceSpecification_parent] at asks
    simp [asksParent, asks]
  | modifyWindow w modifications => simp [asksParent, link.2.1]
  | _ => exact link.elim

theorem Reachable.linkless
    (reachable : Reachable (fun s op => op.Contract s ∧ op.asksParent = false) s) :
    Reachable (fun s op => op.Contract s ∧ ∀ w p, ¬op.links s w p) s := by
  refine reachable.mono fun s op h => ⟨h.1, fun w p link => ?_⟩
  simp [Op.asksParent_of_links link] at h

theorem Reachable.acyclic_of_linkless
    (reachable : Reachable (fun s op => op.Contract s ∧ op.asksParent = false) s) :
    Reachable (fun s op => op.Contract s ∧ ¬op.ClosesLoop s) s :=
  reachable.linkless.mono fun _ _ h => ⟨h.1, fun ⟨w, p, link, _⟩ => h.2 w p link⟩

theorem Reachable.uniform_of_linkless
    (reachable : Reachable (fun s op => op.Contract s ∧ op.asksParent = false) s) :
    Reachable (fun s op => op.Contract s ∧ ¬op.JoinsApart s) s :=
  reachable.linkless.mono fun _ _ h => ⟨h.1, fun ⟨w, p, link, _⟩ => h.2 w p link⟩

def Model.start : Model := .initial .latest (.single 1 ⟨⟨0, 0⟩, ⟨640, 480⟩⟩)

def Op.dialogRun : List Op :=
  [.addSession 1, .addSurface 1 { size := ⟨100, 80⟩ } 1, .postBuffer ⟨1, 1⟩,
    .handleWindowReady ⟨1, 1⟩, .createWorkspace 7, .addTreeToWorkspace (some ⟨1, 1⟩) 7,
    .addSurface 1 { size := ⟨30, 20⟩, type := some .dialog, parent := some ⟨1, 1⟩ } 2,
    .postBuffer ⟨1, 2⟩, .handleWindowReady ⟨1, 2⟩,
    .modifySurface ⟨1, 1⟩ { state := some .fullscreen }]

def Model.dialogState : Model :=
  (Op.follow 12 (fun s op => op.Contract s ∧ op.asksParent = false) Op.dialogRun .start).get
    (by decide +kernel)

theorem reachable_dialogState :
    Reachable (fun s op => op.Contract s ∧ op.asksParent = false) dialogState :=
  (Reachable.initial _ _).follow (Option.some_get _).symm

def Op.pairRun : List Op :=
  [.addSession 1, .addSurface 1 { size := ⟨100, 80⟩ } 1, .postBuffer ⟨1, 1⟩,
    .handleWindowReady ⟨1, 1⟩, .addSurface 1 { size := ⟨100, 80⟩ } 2, .postBuffer ⟨1, 2⟩,
    .handleWindowReady ⟨1, 2⟩, .createWorkspace 7, .addTreeToWorkspace (some ⟨1, 1⟩) 7,
    .addTreeToWorkspace (some ⟨1, 2⟩) 7]

def Model.pairState : Model :=
  (Op.follow 12 (fun s op => op.Contract s ∧ op.asksParent = false) Op.pairRun .start).get
    (by decide +kernel)

theorem reachable_pairState :
    Reachable (fun s op => op.Contract s ∧ op.asksParent = false) pairState :=
  (Reachable.initial _ _).follow (Option.some_get _).symm

def Op.familyRun : List Op := Op.pairRun ++
  [.addSurface 1 { size := ⟨30, 20⟩, type := some .dialog, parent := some ⟨1, 1⟩ } 3]

def Model.familyState : Model :=
  (Op.follow 12 (fun s op => op.Contract s ∧ op.asksParent = false) Op.familyRun .start).get
    (by decide +kernel)

theorem reachable_familyState :
    Reachable (fun s op => op.Contract s ∧ op.asksParent = false) familyState :=
  (Reachable.initial _ _).follow (Option.some_get _).symm

def Op.adopt : Op := .modifySurface ⟨1, 3⟩ { parent := some (some ⟨1, 2⟩) }

def Model.adoptedState : Model := (Op.adopt.run 12 familyState).returned?.get (by decide +kernel)

theorem links_adopt {w p : Window} (link : Op.adopt.links familyState w p) :
    w = ⟨1, 3⟩ ∧ p = ⟨1, 2⟩ := by
  obtain ⟨rfl, asks, -⟩ := link.1
  rw [WindowSpecification.ofSurfaceSpecification_parent] at asks
  exact ⟨rfl, (Option.some.inj (Option.some.inj asks)).symm⟩

/-- A dialog without a parent whose client makes it its own parent. -/
def Op.loopRun : List Op :=
  [.addSession 1, .addSurface 1 { size := ⟨30, 20⟩, type := some .dialog } 1,
    .modifySurface ⟨1, 1⟩ { parent := some (some ⟨1, 1⟩) }]

def Model.loopState : Model :=
  (Op.follow 12 (fun s op => op.Contract s) Op.loopRun .start).get (by decide +kernel)

/-- A window in a workspace, and a dialog outside of it that is made its child. -/
def Op.joinRun : List Op :=
  [.addSession 1, .addSurface 1 { size := ⟨100, 80⟩ } 1, .createWorkspace 7,
    .addTreeToWorkspace (some ⟨1, 1⟩) 7,
    .addSurface 1 { size := ⟨30, 20⟩, type := some .dialog } 2,
    .modifySurface ⟨1, 2⟩ { parent := some (some ⟨1, 1⟩) }]

def Model.joinState : Model :=
  (Op.follow 12 (fun s op => op.Contract s) Op.joinRun .start).get (by decide +kernel)

/-- The records, the lists kept beside them and the relation of workspaces agree. -/
theorem references_agree (reachable : Reachable (fun s op => op.Contract s) s) :
    (∀ p c parent child, s.info? p = some parent → s.info? c = some child →
      (c ∈ parent.children ↔ child.parent = some p) ∧
      (c ∈ parent.children → parent.children.count c = 1)) ∧
    (∀ w, s.Managed w → ∃ app, s.app? w.application = some app ∧ app.windows.count w = 1) ∧
    (∀ a app, s.app? a = some app → ∀ w ∈ app.windows, s.Managed w ∧ w.application = a) ∧
    (∀ w ∈ s.mruActiveWindows, s.Managed w) ∧
    (∀ pair ∈ s.workspacesToWindows, s.Managed pair.2) ∧
    ∀ w, w ∈ s.fullscreenSurfaces ↔ ∃ info, s.info? w = some info ∧ info.state = .fullscreen := by
  have integrity := reachable.integrity
  refine ⟨fun p c parent child here there => ?_, fun w managed => ?_, fun a app found w listed => ?_,
    integrity.mru, integrity.workspaces, fun w => ?_⟩
  · have count := integrity.children p c
    rw [childrenOf_eq here, parentOf_eq there] at count
    constructor
    · rw [integrity.mem_children here, parentOf_eq there]
    · intro member
      rw [integrity.mem_children here, parentOf_eq there] at member
      rwa [if_pos member] at count
  · obtain ⟨app, found⟩ := integrity.app_exists managed
    have count := integrity.windows w.application w
    rw [windowsOf_eq found, if_pos ⟨managed, rfl⟩] at count
    exact ⟨app, found, count⟩
  · rw [← windowsOf_eq found] at listed
    exact integrity.mem_windowsOf.mp listed
  · rw [integrity.fullscreen, stateOf, Option.map_eq_some_iff]

theorem references_agree_dialog :
    (dialogState.Managed ⟨1, 2⟩ ∧ dialogState.parentOf ⟨1, 2⟩ = some ⟨1, 1⟩) ∧
    (⟨1, 1⟩ ∈ dialogState.fullscreenSurfaces ↔
      ∃ info, dialogState.info? ⟨1, 1⟩ = some info ∧ info.state = .fullscreen) := by
  obtain ⟨-, -, -, mru, -, full⟩ :=
    references_agree (reachable_dialogState.mono fun _ _ h => h.1)
  exact ⟨⟨mru ⟨1, 2⟩ (by decide +kernel), by decide +kernel⟩, full ⟨1, 1⟩⟩

/-- As long as no request closes a loop, every window is below a parentless one, and every
walk over the tree of a window ends. -/
theorem trees_acyclic
    (reachable : Reachable (fun s op => op.Contract s ∧ ¬op.ClosesLoop s) s) :
    (∀ w, s.Managed w → Rooted s.parentOf w) ∧
    ∃ n, ∀ fuel ≥ n, ∀ w, s.Managed w →
      (∃ r t, selectActiveWindow fuel (some w) s = .returned r t) ∧
      (∃ t, raiseTree fuel w s = .returned () t) ∧
      (∀ movement, ∃ t, moveTree fuel w movement s = .returned () t) ∧
      (∃ root, rootOf fuel w s = .returned root s) ∧
      ∀ k, (∃ t, addTreeToWorkspace fuel (some w) k s = .returned () t) ∧
        ∃ t, removeTreeFromWorkspace fuel (some w) k s = .returned () t := by
  obtain ⟨integrity, acyclic⟩ := reachable.acyclic
  exact ⟨acyclic, acyclic.walks integrity⟩

theorem trees_acyclic_adopted : Rooted adoptedState.parentOf ⟨1, 3⟩ ∧
    adoptedState.parentOf ⟨1, 3⟩ = some ⟨1, 2⟩ := by
  have root : familyState.parentOf ⟨1, 2⟩ = none := by decide +kernel
  have opens : ¬Op.ClosesLoop familyState .adopt := by
    rintro ⟨w, p, link, above⟩
    obtain ⟨rfl, rfl⟩ := links_adopt link
    exact absurd (above.eq_of_root root) (by decide)
  have reached : Reachable (fun s op => op.Contract s ∧ ¬op.ClosesLoop s) adoptedState :=
    reachable_familyState.acyclic_of_linkless.returned .adopt ⟨by decide +kernel, opens⟩
      (Option.some_get _).symm
  exact ⟨(trees_acyclic reached).1 ⟨1, 3⟩ (by decide +kernel), by decide +kernel⟩

/-- A client can make a dialog its own parent. -/
theorem trees_acyclic_fails :
    ¬∀ s, Reachable (fun s op => op.Contract s) s → ∀ w, s.Managed w → Rooted s.parentOf w := by
  intro claim
  have reachable : Reachable (fun s op => op.Contract s) loopState :=
    (Reachable.initial _ _).follow (Option.some_get _).symm
  have loop : climb loopState.parentOf 1 ⟨1, 1⟩ = some ⟨1, 1⟩ := by decide +kernel
  exact not_rooted_of_loop loop (claim loopState reachable ⟨1, 1⟩ (by decide +kernel))

/-- As long as requests for a parent stay within the same workspaces, so do trees. -/
theorem trees_share_workspaces
    (reachable : Reachable (fun s op => op.Contract s ∧ ¬op.JoinsApart s) s) (a b : Window)
    (same : SameTree s.parentOf a b) (k : Workspace) :
    k ∈ s.workspacesContaining a ↔ k ∈ s.workspacesContaining b :=
  reachable.uniform.2.sameTree same k

theorem trees_share_workspaces_adopted :
    7 ∈ adoptedState.workspacesContaining ⟨1, 3⟩ ↔
      7 ∈ adoptedState.workspacesContaining ⟨1, 2⟩ := by
  have same : familyState.workspacesContaining ⟨1, 3⟩ = familyState.workspacesContaining ⟨1, 2⟩ := by
    decide +kernel
  have joins : ¬Op.JoinsApart familyState .adopt := by
    rintro ⟨w, p, link, k, apart⟩
    obtain ⟨rfl, rfl⟩ := links_adopt link
    exact apart (by rw [same])
  have reached : Reachable (fun s op => op.Contract s ∧ ¬op.JoinsApart s) adoptedState :=
    reachable_familyState.uniform_of_linkless.returned .adopt ⟨by decide +kernel, joins⟩
      (Option.some_get _).symm
  exact trees_share_workspaces reached ⟨1, 3⟩ ⟨1, 2⟩ (.rel _ _ (by decide +kernel)) 7

/-- A dialog that gets a parent does not join the workspaces of that parent. -/
theorem trees_share_workspaces_fails :
    ¬∀ s, Reachable (fun s op => op.Contract s) s → ∀ a b, SameTree s.parentOf a b →
      ∀ k, k ∈ s.workspacesContaining a ↔ k ∈ s.workspacesContaining b := by
  intro claim
  have reachable : Reachable (fun s op => op.Contract s) joinState :=
    (Reachable.initial _ _).follow (Option.some_get _).symm
  have shared := claim joinState reachable ⟨1, 2⟩ ⟨1, 1⟩ (.rel _ _ (by decide +kernel)) 7
  have joined : 7 ∈ joinState.workspacesContaining ⟨1, 1⟩ := by decide +kernel
  have apart : 7 ∉ joinState.workspacesContaining ⟨1, 2⟩ := by decide +kernel
  exact apart (shared.mpr joined)

end Miral
