import Miral.Library.Recency
import Miral.Retiling

/-! `TilingWindowManagerPolicy` over whole runs. Windows that become ready or gain the focus,
applications that come and go and displays that change only mark the tiles as out of date; the
end of an operation puts them, and the windows in them, where they belong. -/
namespace Miral

open Program Prog Forest Model Tiling Recency

/-- What the policy keeps for its tiles. -/
structure TilingState where
  tiles : MRUTileList
  dirtyTiles : Bool
  displays : List Rectangle
  data : Application → TilingWindowManagerPolicyData

inductive TilingNotice where
  | adviseNewApp (app : Application)
  | adviseDeleteApp (app : Application)
  | handleWindowReady (app : Application)
  | adviseFocusGained (app : Application)
  | adviseEnd
  /-- After notices of outputs that have changed the live displays. -/
  | adviseOutputEnd (liveDisplays : List Rectangle)

namespace TilingState

def initial : TilingState := ⟨⟨[], List.nodup_nil⟩, false, [], fun _ => ⟨default, default⟩⟩

variable (fuel : Nat) (spinner : Option Application)

/-- `update_tiles`, and that nothing is out of date after it. -/
def update (self : TilingState) : Manager TilingState := do
  let data ← updateTiles self.data fuel self.tiles self.displays spinner
  pure { self with data, dirtyTiles := false }

/-- The functions of the policy that touch its tiles, without what they do to the focus. -/
def advise (self : TilingState) : TilingNotice → Manager TilingState
  | .adviseNewApp app =>
    if spinner = some app then pure self
    else
      let bounds := boundingRectangle self.displays
      let tile := if self.tiles.count > 0 then
          { bounds with size := ⟨bounds.size.width.tdiv 2, bounds.size.height⟩ }
        else bounds
      pure { self with data := Function.update self.data app ⟨tile, default⟩ }
  | .adviseDeleteApp app =>
    if spinner = some app then pure self
    else pure { self with tiles := self.tiles.erase app, dirtyTiles := true }
  | .handleWindowReady app =>
    if spinner = some app then pure self
    else pure { self with tiles := self.tiles.push app, dirtyTiles := true }
  | .adviseFocusGained app =>
    if spinner.isSome then pure self
    else pure { self with tiles := self.tiles.push app, dirtyTiles := true }
  | .adviseEnd => if self.dirtyTiles then self.update fuel spinner else pure self
  | .adviseOutputEnd liveDisplays =>
    { self with displays := liveDisplays }.update fuel spinner

end TilingState

def TilingNotice.uses (spinner : Option Application) : TilingNotice → List (Use Application)
  | .adviseDeleteApp app => if spinner = some app then [] else [.erase app]
  | .handleWindowReady app => if spinner = some app then [] else [.push app]
  | .adviseFocusGained app => if spinner.isSome then [] else [.push app]
  | _ => []

/-- Notices that are allowed, one after the other, and what else happens meanwhile; the history
is that of the tiles. -/
inductive TilingRun (allowed : TilingState → Option Application → TilingNotice → Prop)
    (calm : Model → Model → Prop) :
    TilingState → Model → List (Use Application) → TilingState → Model → Prop
  | refl {self s} : TilingRun allowed calm self s [] self s
  | advise {self s history after t next u} (fuel spinner notice) :
      TilingRun allowed calm self s history after t → allowed after spinner notice →
      after.advise fuel spinner notice t = .returned next u →
      TilingRun allowed calm self s (history ++ notice.uses spinner) next u
  | other {self s history after t u} : TilingRun allowed calm self s history after t →
      calm t u → TilingRun allowed calm self s history after u

namespace TilingState

variable {self next : TilingState} {fuel : Nat} {spinner : Option Application} {s t : Model}
  {notice : TilingNotice} {post : TilingState → Model → Prop}
  {error : Failure → Model → Prop} {short : Prop}

def Laid (self : TilingState) : Prop :=
  self.dirtyTiles = false → self.displays ≠ [] → ∀ i app, self.tiles.enumerated[i]? = some app →
    (self.data app).tile = tileAt (boundingRectangle self.displays).size self.tiles.count i

/-- An application is new only if it has no tile yet. -/
def Fresh (self : TilingState) (_ : Option Application) (notice : TilingNotice) : Prop :=
  ∀ app, notice = .adviseNewApp app → app ∉ self.tiles.tiles

theorem updateTiles_data {data data' : Application → TilingWindowManagerPolicyData}
    {tiles : MRUTileList} {displays : List Rectangle}
    (run : updateTiles data fuel tiles displays spinner s = .returned data' t) :
    data' = assignTiles tiles displays data := by
  rw [updateTiles, bind_eq_returned] at run
  obtain ⟨_, _, -, run⟩ := run
  rw [bind_eq_returned] at run
  obtain ⟨_, _, -, run⟩ := run
  exact (pure_eq_returned.mp run).1.symm

theorem update_returned (run : self.update fuel spinner s = .returned next t) :
    next = { self with
      data := assignTiles self.tiles self.displays self.data, dirtyTiles := false } := by
  rw [update, bind_eq_returned] at run
  obtain ⟨data, _, first, run⟩ := run
  rw [← (pure_eq_returned.mp run).1, updateTiles_data first]

theorem laid_update (run : self.update fuel spinner s = .returned next t) : next.Laid := by
  rw [update_returned run]
  intro _ shown i app here
  have listed : app ∈ self.tiles.enumerated := List.mem_of_getElem? here
  have some : ¬(self.tiles.count < 1 ∨ self.displays.length < 1) := by
    have long := List.length_pos_iff.mpr shown
    have held := List.length_pos_of_mem (List.mem_reverse.mp listed)
    rw [MRUTileList.count]
    simp only at long
    omega
  simp only [assignTiles, if_neg some]
  have distinct : self.tiles.enumerated.Nodup := List.nodup_reverse.mpr self.tiles.nodup
  rw [layTiles_at distinct here, Nat.zero_add]

/-- Tiles are used as the history says, and put in place when they are up to date. -/
theorem laid_advise (laid : self.Laid) (fresh : self.Fresh spinner notice)
    (run : self.advise fuel spinner notice s = .returned next t) :
    next.Laid ∧ next.tiles.tiles = (notice.uses spinner).foldl Use.apply self.tiles.tiles := by
  cases notice with
  | adviseNewApp app =>
    rw [advise] at run
    split at run
    · obtain ⟨rfl, -⟩ := pure_eq_returned.mp run
      exact ⟨laid, rfl⟩
    · obtain ⟨rfl, -⟩ := pure_eq_returned.mp run
      refine ⟨fun clean shown i other here => ?_, rfl⟩
      have listed := List.mem_reverse.mp (List.mem_of_getElem? here)
      have ne : other ≠ app := by
        rintro rfl
        exact fresh other rfl listed
      simp only [Function.update_of_ne ne]
      exact laid clean shown i other here
  | adviseDeleteApp app | handleWindowReady app | adviseFocusGained app =>
    rw [advise] at run
    split at run
    · obtain ⟨rfl, -⟩ := pure_eq_returned.mp run
      exact ⟨laid, by rw [TilingNotice.uses, if_pos ‹_›]; rfl⟩
    · obtain ⟨rfl, -⟩ := pure_eq_returned.mp run
      exact ⟨nofun, by rw [TilingNotice.uses, if_neg ‹_›]; rfl⟩
  | adviseEnd =>
    rw [advise] at run
    split at run
    · refine ⟨laid_update run, ?_⟩
      rw [update_returned run]
      rfl
    · obtain ⟨rfl, -⟩ := pure_eq_returned.mp run
      exact ⟨laid, rfl⟩
  | adviseOutputEnd liveDisplays =>
    refine ⟨laid_update run, ?_⟩
    rw [update_returned run]
    rfl

end TilingState

section Order

variable {self σ : TilingState} {s t : Model} {history : List (Use Application)}
  {calm : Model → Model → Prop}

theorem TilingRun.laid (run : TilingRun TilingState.Fresh calm .initial s history self t) :
    self.Laid ∧ self.tiles.tiles = Recency.after history := by
  generalize start : TilingState.initial = first at run
  induction run with
  | refl =>
    subst start
    exact ⟨fun _ shown => absurd rfl shown, rfl⟩
  | advise fuel spinner notice _ fresh step ih =>
    obtain ⟨laid, order⟩ := ih
    obtain ⟨laid', order'⟩ := TilingState.laid_advise laid fresh step
    refine ⟨laid', ?_⟩
    rw [order', order, Recency.after, Recency.after, List.foldl_append]
  | other _ _ ih => exact ih

/-- Whenever the policy is up to date, the applications that have shown a window have the tiles
in the order of their last use, whatever else has happened. -/
theorem tiles_in_order_of_use
    (run : TilingRun TilingState.Fresh (fun _ _ => True) .initial s history self t)
    (clean : self.dirtyTiles = false) (shown : self.displays ≠ []) :
    ∃ order, Ordered history order ∧ ∀ i app, order.reverse[i]? = some app →
      (self.data app).tile = tileAt (boundingRectangle self.displays).size order.length i := by
  obtain ⟨laid, order⟩ := run.laid
  refine ⟨Recency.after history, ordered_after history, fun i app here => ?_⟩
  rw [← order] at here ⊢
  exact laid clean shown i app here

theorem exists_sharing : ∃ self : TilingState,
    TilingRun TilingState.Fresh (fun _ _ => True) .initial .start [.push 1, .push 2] self .start ∧
      self.dirtyTiles = false ∧ self.displays = [⟨⟨0, 0⟩, ⟨640, 480⟩⟩] := by
  have begun : TilingRun TilingState.Fresh (fun _ _ => True) .initial .start [] .initial .start :=
    .refl
  have shown := begun.advise 0 none (.adviseOutputEnd [⟨⟨0, 0⟩, ⟨640, 480⟩⟩]) nofun rfl
  have new (app : Application) (self : TilingState) (free : app ∉ self.tiles.tiles) :
      self.Fresh none (.adviseNewApp app) := by
    intro other same
    cases same
    exact free
  have first := shown.advise 0 none (.adviseNewApp 1) (new _ _ (by decide)) rfl
  have second := first.advise 0 none (.adviseNewApp 2) (new _ _ (by decide)) rfl
  have third := second.advise 0 none (.handleWindowReady 1) nofun rfl
  have fourth := third.advise 0 none (.handleWindowReady 2) nofun rfl
  have fifth := fourth.advise 0 none .adviseEnd nofun rfl
  exact ⟨_, fifth, rfl, rfl⟩

theorem tiles_in_order_of_use_two : ∃ self : TilingState,
    self.displays = [⟨⟨0, 0⟩, ⟨640, 480⟩⟩] ∧ ∃ order, Ordered [.push 1, .push 2] order ∧
      ∀ i app, order.reverse[i]? = some app →
        (self.data app).tile = tileAt (boundingRectangle self.displays).size order.length i := by
  obtain ⟨self, run, clean, shown⟩ := exists_sharing
  refine ⟨self, shown, tiles_in_order_of_use run clean ?_⟩
  rw [shown]
  exact List.cons_ne_nil _ _

end Order

section Windows

variable {data : Application → TilingWindowManagerPolicyData} {s t u : Model} {w v : Window}
  {fuel : Nat} {spinner : Option Application}

/-- The parentless windows of some applications are carried over to their new tiles, and those
of the others stay where they are. -/
structure Retiled (data : Application → TilingWindowManagerPolicyData)
    (moved : Application → Prop) (s t : Model) : Prop where
  rearranged : Rearranged s t
  carried : ∀ v, s.Managed v → s.parentOf v = none → moved v.application →
    t.rect v = retiled (data v.application).oldTile (data v.application).tile (s.rect v)
  kept : ∀ v, s.Managed v → s.parentOf v = none → ¬moved v.application → t.rect v = s.rect v

namespace Retiled

variable {moved moved' : Application → Prop}

theorem none (integrity : s.Integrity) (nobody : ∀ a, ¬moved a) : Retiled data moved s s :=
  ⟨.refl integrity, fun _ _ _ here => absurd here (nobody _), fun _ _ _ _ => rfl⟩

theorem trans (first : Retiled data moved s t) (second : Retiled data moved' t u)
    (apart : ∀ a, moved a → ¬moved' a) :
    Retiled data (fun a => moved a ∨ moved' a) s u where
  rearranged := first.rearranged.trans second.rearranged
  carried v managed root either := by
    have managed' := (first.rearranged.undisturbed.managed v).mpr managed
    have root' : t.parentOf v = Option.none := by rw [first.rearranged.parents, root]
    rcases either with here | there
    · rw [second.kept v managed' root' (apart _ here), first.carried v managed root here]
    · rw [second.carried v managed' root' there,
        first.kept v managed root fun here => apart _ here there]
  kept v managed root neither := by
    rw [not_or] at neither
    rw [second.kept v ((first.rearranged.undisturbed.managed v).mpr managed)
      (by rw [first.rearranged.parents, root]) neither.2, first.kept v managed root neither.1]

theorem congr (same : ∀ a, moved a ↔ moved' a) (retiled : Retiled data moved s t) :
    Retiled data moved' s t := by
  rwa [← funext fun a => propext (same a)]

end Retiled

theorem ensures_updateSurfaces_of (integrity : s.Integrity) (a : Application) :
    (updateSurfaces data fuel (s.windowsOf a) (data a).oldTile (data a).tile).Ensures s
      (fun _ t => Retiled data (· = a) s t) (fun _ _ => False)
      (∃ w v, s.parentOf w = none ∧ climb s.parentOf fuel v = some w) := by
  refine (ensures_updateSurfaces _ _ integrity integrity.windowsOf_nodup fun w member =>
    (integrity.mem_windowsOf.mp member).1).imp fun _ t ⟨same, placed⟩ => ⟨same, ?_, ?_⟩
  · rintro v managed root rfl
    rw [placed v root, if_pos (integrity.mem_windowsOf.mpr ⟨managed, rfl⟩)]
  · intro v managed root other
    rw [placed v root, if_neg fun member => other (integrity.mem_windowsOf.mp member).2]

/-- The loop over the applications. -/
theorem ensures_forEach_updateSurfaces (integrity : s.Integrity)
    {apps : List (Application × ApplicationInfo)} (single : (apps.map Prod.fst).Nodup)
    (listed : ∀ app ∈ apps, app.2.windows = s.windowsOf app.1) :
    (Prog.forEach (fun app => Prog.onlyIf (spinner ≠ some app.1) <|
      updateSurfaces data fuel app.2.windows (data app.1).oldTile (data app.1).tile) apps).Ensures s
      (fun _ t => Retiled data (fun a => a ∈ apps.map Prod.fst ∧ spinner ≠ some a) s t)
      (fun _ _ => False)
      (∃ w v, s.parentOf w = none ∧ climb s.parentOf fuel v = some w) := by
  induction apps generalizing s with
  | nil => exact .none integrity (by simp)
  | cons app rest ih =>
    rw [List.map_cons, List.nodup_cons] at single
    rw [List.forall_mem_cons] at listed
    have turn : (Prog.onlyIf (spinner ≠ some app.1) <| updateSurfaces data fuel app.2.windows
          (data app.1).oldTile (data app.1).tile).Ensures s
        (fun _ t => Retiled data (fun a => a = app.1 ∧ spinner ≠ some app.1) s t)
        (fun _ _ => False) (∃ w v, s.parentOf w = none ∧ climb s.parentOf fuel v = some w) := by
      rw [ensures_onlyIf]
      constructor
      · intro ordinary
        rw [listed.1]
        exact (ensures_updateSurfaces_of integrity app.1).imp fun _ t turn =>
          turn.congr fun a => ⟨fun eq => ⟨eq, ordinary⟩, And.left⟩
      · intro spins
        exact .none integrity fun a here => spins here.2
    refine turn.bind fun _ t first => ?_
    have same := first.rearranged
    have windows (a : Application) : t.windowsOf a = s.windowsOf a := by
      rw [same.undisturbed.frame]
      rfl
    refine (ih same.integrity single.2 fun other member => ?_).mono ?_ (fun _ _ h => h) ?_
    · rw [listed.2 other member, windows]
    · intro _ u others
      refine (first.trans others ?_).congr fun a => ?_
      · rintro a ⟨rfl, -⟩ ⟨member, -⟩
        exact single.1 member
      · rw [List.map_cons, List.mem_cons]
        constructor
        · rintro (⟨rfl, ordinary⟩ | ⟨member, ordinary⟩)
          · exact ⟨.inl rfl, ordinary⟩
          · exact ⟨.inr member, ordinary⟩
        · rintro ⟨rfl | member, ordinary⟩
          · exact .inl ⟨rfl, ordinary⟩
          · exact .inr ⟨member, ordinary⟩
    · rw [same.parents]
      exact id

/-- `update_tiles` carries over the windows of every application but the spinner. -/
theorem ensures_updateTiles (tiles : MRUTileList) (displays : List Rectangle)
    (integrity : s.Integrity) :
    (updateTiles data fuel tiles displays spinner).Ensures s
      (fun data' t => data' = assignTiles tiles displays data ∧ Retiled data'
        (fun a => ¬(tiles.count < 1 ∨ displays.length < 1) ∧ spinner ≠ some a) s t)
      (fun _ _ => False) (∃ w v, s.parentOf w = none ∧ climb s.parentOf fuel v = some w) := by
  rw [updateTiles, ensures_bind, ensures_state, ensures_bind, ensures_onlyIf]
  constructor
  · intro some
    have keys : (s.appInfo.entries.map fun app => (app.1, app.2)).map Prod.fst =
        s.appInfo.keys := by
      rw [List.map_map]
      rfl
    refine (ensures_forEach_updateSurfaces integrity (keys ▸ s.appInfo.keys_nodup) ?_).imp
      fun _ t turn => ⟨rfl, turn.rearranged, ?_, ?_⟩
    · intro app member
      obtain ⟨entry, listed, rfl⟩ := List.mem_map.mp member
      exact (windowsOf_eq (AList.mem_lookup_iff.mpr listed)).symm
    · intro v managed root here
      obtain ⟨info, found⟩ := integrity.app_exists managed
      refine turn.carried v managed root ⟨?_, here.2⟩
      rw [keys]
      exact AList.mem_keys.mp (AList.lookup_isSome.mp (Option.isSome_of_eq_some found))
    · exact fun v managed root other => turn.kept v managed root fun here => other ⟨some, here.2⟩
  · intro nothing
    exact ⟨rfl, .none integrity fun a here => nothing here.1⟩

theorem retiled_self (oldTile newTile : Rectangle) : retiled oldTile newTile oldTile = newTile := by
  obtain ⟨⟨x, y⟩, ⟨width, height⟩⟩ := oldTile
  obtain ⟨⟨x', y'⟩, ⟨width', height'⟩⟩ := newTile
  simp only [retiled, Point.add_x, Point.add_y, Point.sub_dx, Point.sub_dy, if_true,
    Rectangle.mk.injEq, Size.mk.injEq]
  refine ⟨Point.ext ?_ ?_, ?_, ?_⟩
  · simp
  · simp
  · omega
  · omega

theorem TilingState.exists_advise (self : TilingState) (integrity : s.Integrity)
    (spinner : Option Application) (notice : TilingNotice) : ∃ n, ∀ fuel, n ≤ fuel →
      ∃ next t, self.advise fuel spinner notice s = .returned next t := by
  obtain ⟨n, enough⟩ := exists_height s
  have updated (state : TilingState) {fuel : Nat} (le : n ≤ fuel) :
      ∃ next t, state.update fuel spinner s = .returned next t := by
    obtain ⟨data, t, run, -⟩ := (@ensures_updateTiles state.data s fuel spinner state.tiles
      state.displays integrity).returns (enough fuel le)
    exact ⟨_, t, bind_of_returned run⟩
  refine ⟨n, fun fuel le => ?_⟩
  cases notice with
  | adviseEnd =>
    rw [advise]
    split
    · exact updated self le
    · exact ⟨_, _, rfl⟩
  | adviseOutputEnd => exact updated _ le
  | adviseNewApp => rw [advise]; split <;> exact ⟨_, _, rfl⟩
  | adviseDeleteApp => rw [advise]; split <;> exact ⟨_, _, rfl⟩
  | handleWindowReady => rw [advise]; split <;> exact ⟨_, _, rfl⟩
  | adviseFocusGained => rw [advise]; split <;> exact ⟨_, _, rfl⟩

/-- What a window does not notice. -/
structure Calm (w : Window) (s t : Model) : Prop where
  integrity : t.Integrity
  managed : t.Managed w ↔ s.Managed w
  parent : t.parentOf w = s.parentOf w
  rect : t.rect w = s.rect w

/-- The application keeps its tile, and is no spinner. -/
structure TilingState.Attached (a : Application) (state : TilingState)
    (spinner : Option Application) (notice : TilingNotice) : Prop where
  fresh : state.Fresh spinner notice
  ordinary : spinner ≠ some a
  stays : notice ≠ .adviseDeleteApp a

/-- A parentless window that fills the tile of its application, which has one. -/
structure TilingState.Filled (w : Window) (state : TilingState) (s : Model) : Prop where
  laid : state.Laid
  integrity : s.Integrity
  managed : s.Managed w
  root : s.parentOf w = none
  listed : w.application ∈ state.tiles.tiles
  fills : s.rect w = (state.data w.application).tile

namespace TilingState.Filled

variable {self next : TilingState} {notice : TilingNotice}

theorem calm (filled : self.Filled w s) (same : Calm w s t) : self.Filled w t where
  laid := filled.laid
  integrity := same.integrity
  managed := same.managed.mpr filled.managed
  root := by rw [same.parent, filled.root]
  listed := filled.listed
  fills := by rw [same.rect, filled.fills]

theorem update (filled : self.Filled w s) (ordinary : spinner ≠ some w.application)
    (displays : List Rectangle)
    (run : ({ self with displays : TilingState }.update fuel spinner) s = .returned next t) :
    next.Filled w t := by
  have whole := run
  rw [TilingState.update, bind_eq_returned] at run
  obtain ⟨data, u, first, run⟩ := run
  obtain ⟨rfl, rfl⟩ := pure_eq_returned.mp run
  obtain ⟨rfl, carried⟩ := ((ensures_updateTiles self.tiles displays
    filled.integrity).unbounded).returned first
  refine ⟨TilingState.laid_update whole, carried.rearranged.integrity,
    (carried.rearranged.undisturbed.managed w).mpr filled.managed,
    by rw [carried.rearranged.parents, filled.root], filled.listed, ?_⟩
  by_cases nothing : self.tiles.count < 1 ∨ displays.length < 1
  · rw [carried.kept w filled.managed filled.root fun here => here.1 nothing, filled.fills]
    simp only [assignTiles, if_pos nothing]
  · have listed : w.application ∈ self.tiles.enumerated := List.mem_reverse.mpr filled.listed
    have distinct : self.tiles.enumerated.Nodup := List.nodup_reverse.mpr self.tiles.nodup
    obtain ⟨i, here⟩ := List.getElem?_of_mem listed
    have old : (assignTiles self.tiles displays self.data w.application).oldTile =
        (self.data w.application).tile := by
      rw [assignTiles, if_neg nothing, layTiles_at distinct here]
    rw [carried.carried w filled.managed filled.root ⟨nothing, ordinary⟩, old, filled.fills,
      retiled_self]

theorem advise (filled : self.Filled w s) (allowed : self.Attached w.application spinner notice)
    (run : self.advise fuel spinner notice s = .returned next t) : next.Filled w t := by
  have laid := (TilingState.laid_advise filled.laid allowed.fresh run).1
  have pushed (app : Application) : w.application ∈ (self.tiles.push app).tiles := by
    have member := filled.listed
    by_cases same : w.application = app
    · simp [MRUTileList.push, same]
    · simp [MRUTileList.push, MRUTileList.erase, member, same]
  cases notice with
  | adviseNewApp app =>
    rw [TilingState.advise] at run
    split at run
    · obtain ⟨rfl, rfl⟩ := pure_eq_returned.mp run
      exact filled
    · obtain ⟨rfl, rfl⟩ := pure_eq_returned.mp run
      have other : w.application ≠ app := fun same =>
        allowed.fresh app rfl (same ▸ filled.listed)
      refine ⟨laid, filled.integrity, filled.managed, filled.root, filled.listed, ?_⟩
      rw [filled.fills]
      exact congrArg TilingWindowManagerPolicyData.tile (Function.update_of_ne other ..).symm
  | adviseDeleteApp app =>
    rw [TilingState.advise] at run
    split at run
    · obtain ⟨rfl, rfl⟩ := pure_eq_returned.mp run
      exact filled
    · obtain ⟨rfl, rfl⟩ := pure_eq_returned.mp run
      have other : w.application ≠ app := fun same => allowed.stays (same ▸ rfl)
      refine ⟨laid, filled.integrity, filled.managed, filled.root, ?_, filled.fills⟩
      simp [MRUTileList.erase, filled.listed, other]
  | handleWindowReady app | adviseFocusGained app =>
    rw [TilingState.advise] at run
    split at run
    · obtain ⟨rfl, rfl⟩ := pure_eq_returned.mp run
      exact filled
    · obtain ⟨rfl, rfl⟩ := pure_eq_returned.mp run
      exact ⟨laid, filled.integrity, filled.managed, filled.root, pushed app, filled.fills⟩
  | adviseEnd =>
    rw [TilingState.advise] at run
    split at run
    · exact filled.update allowed.ordinary self.displays run
    · obtain ⟨rfl, rfl⟩ := pure_eq_returned.mp run
      exact filled
  | adviseOutputEnd liveDisplays => exact filled.update allowed.ordinary liveDisplays run

theorem run {history : List (Use Application)} (filled : self.Filled w s)
    (run : TilingRun (TilingState.Attached w.application) (Calm w) self s history next t) :
    next.Filled w t := by
  induction run with
  | refl => exact filled
  | advise fuel spinner notice _ allowed step ih => exact ih.advise allowed step
  | other _ same ih => exact ih.calm same

end TilingState.Filled

/-- A window that fills the tile of its application fills it for as long as the application has
one and nothing but the policy moves the window: up to date, it fills the tile for its place. -/
theorem filled_windows_stay_filled {state next : TilingState} {history : List (Use Application)}
    (filled : state.Filled w s)
    (run : TilingRun (TilingState.Attached w.application) (Calm w) state s history next t) :
    t.rect w = (next.data w.application).tile ∧
      (next.dirtyTiles = false → next.displays ≠ [] → ∃ i,
        next.tiles.enumerated[i]? = some w.application ∧
        t.rect w = tileAt (boundingRectangle next.displays).size next.tiles.count i) ∧
      ∀ spinner notice, ∃ n, ∀ fuel, n ≤ fuel →
        ∃ later u, next.advise fuel spinner notice t = .returned later u := by
  have kept := filled.run run
  refine ⟨kept.fills, fun clean shown => ?_, next.exists_advise kept.integrity⟩
  obtain ⟨i, here⟩ := List.getElem?_of_mem (List.mem_reverse.mpr kept.listed)
  exact ⟨i, here, by rw [kept.fills, kept.laid clean shown i _ here]⟩

/-- The window has just been shown, as large as its application's tile was guessed to be. -/
def guessed : TilingState where
  tiles := ⟨[1], List.nodup_singleton 1⟩
  dirtyTiles := true
  displays := [⟨⟨0, 0⟩, ⟨640, 480⟩⟩]
  data _ := ⟨⟨⟨270, 134⟩, ⟨100, 80⟩⟩, default⟩

theorem filled_guessed : guessed.Filled ⟨1, 1⟩ singleState := by
  have integrity : singleState.Integrity := (reachable_singleState.mono fun _ _ h => h.1).integrity
  obtain ⟨topLeft, size, root, here⟩ := rect_singleState
  refine ⟨nofun, integrity, ?_, root, List.mem_singleton_self 1, ?_⟩
  · exact (integrity.mem_windowsOf.mp (by rw [windowsOf_eq here]; exact List.mem_cons_self)).1
  · rw [rect, topLeft, size]
    rfl

theorem filled_windows_stay_filled_guessed : ∃ fuel next t,
    guessed.advise fuel none .adviseEnd singleState = .returned next t ∧
      t.rect ⟨1, 1⟩ = (next.data 1).tile := by
  obtain ⟨fuel, enough⟩ := guessed.exists_advise filled_guessed.integrity none .adviseEnd
  obtain ⟨next, t, run⟩ := enough fuel le_rfl
  exact ⟨fuel, next, t, run, (filled_windows_stay_filled filled_guessed
    (.advise fuel none .adviseEnd .refl ⟨nofun, nofun, nofun⟩ run)).1⟩

end Windows

end Miral
