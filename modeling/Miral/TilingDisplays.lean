import Miral.Outputs

/-! The displays `TilingWindowManagerPolicy` keeps from the notices of `ActiveOutputsMonitor`.
`Rectangles` is a multiset: `add` adds one occurrence and `remove` takes one away, if there
is one. -/
namespace Miral

open Register

structure TilingWindowManagerPolicy where
  displays : Multiset Rectangle
  liveDisplays : Multiset Rectangle
  dirtyDisplays : Bool

namespace TilingWindowManagerPolicy

/-- The five functions of the policy that listen to the monitor. -/
def advise (self : TilingWindowManagerPolicy) : OutputNotice → TilingWindowManagerPolicy
  | .adviseOutputBegin => self
  | .adviseOutputCreate output =>
    { self with
      liveDisplays := output.extents ::ₘ self.liveDisplays, dirtyDisplays := true }
  | .adviseOutputUpdate updated original =>
    if !equivalentDisplayArea updated original then
      { self with
        liveDisplays := updated.extents ::ₘ self.liveDisplays.erase original.extents
        dirtyDisplays := true }
    else self
  | .adviseOutputDelete output =>
    { self with
      liveDisplays := self.liveDisplays.erase output.extents, dirtyDisplays := true }
  | .adviseOutputEnd =>
    if self.dirtyDisplays then
      { self with displays := self.liveDisplays, dirtyDisplays := false }
    else self

/-- A policy registered before the first of the configurations. -/
def after (configs : List DisplayConfiguration) : TilingWindowManagerPolicy :=
  (ActiveOutputsMonitor.after configs).calls.foldl advise ⟨0, 0, false⟩

end TilingWindowManagerPolicy

/-- Both sets of displays are the extents of the outputs the monitor holds. -/
def TracksDisplays (configs : List DisplayConfiguration) : Prop :=
  let policy := TilingWindowManagerPolicy.after configs
  let extents := ((ActiveOutputsMonitor.after configs).outputs.map Output.extents : Multiset Rectangle)
  policy.liveDisplays = extents ∧ policy.displays = extents

/-- The extents, in a configuration, of the outputs that are unavailable both in it and in
another one. -/
def DisplayConfiguration.idleExtents (config other : DisplayConfiguration) :
    Multiset Rectangle :=
  ((config.usable.filter fun o =>
    o.bad && other.usable.any fun o' => o'.isSameOutput o && o'.bad).map Output.extents :)

/-- From one configuration to the next, the outputs that stay unavailable keep their extents,
or exchange them. -/
def DisplayConfiguration.Steady (before after : DisplayConfiguration) : Prop :=
  after.idleExtents before = before.idleExtents after

instance (before after : DisplayConfiguration) : Decidable (before.Steady after) :=
  inferInstanceAs (Decidable (_ = _))

namespace TilingWindowManagerPolicy

variable {self : TilingWindowManagerPolicy} {configs : List DisplayConfiguration}
  {config : DisplayConfiguration}

/-- `displays` follows `live_displays` wherever no change is pending. -/
def Settled (self : TilingWindowManagerPolicy) : Prop :=
  self.dirtyDisplays = false → self.displays = self.liveDisplays

theorem Settled.advise (settled : self.Settled) (notice : OutputNotice) :
    (self.advise notice).Settled := by
  cases notice with
  | adviseOutputBegin => exact settled
  | adviseOutputCreate output => simp [Settled, TilingWindowManagerPolicy.advise]
  | adviseOutputUpdate updated original =>
    unfold TilingWindowManagerPolicy.advise
    dsimp only
    split
    · simp [Settled]
    · exact settled
  | adviseOutputDelete output => simp [Settled, TilingWindowManagerPolicy.advise]
  | adviseOutputEnd =>
    unfold TilingWindowManagerPolicy.advise
    dsimp only
    split
    · exact fun _ => rfl
    · exact settled

theorem Settled.foldl (settled : self.Settled) (calls : List OutputNotice) :
    (calls.foldl TilingWindowManagerPolicy.advise self).Settled := by
  induction calls generalizing self with
  | nil => exact settled
  | cons notice rest ih => exact ih (settled.advise notice)

theorem Settled.ended (settled : self.Settled) :
    (self.advise .adviseOutputEnd).displays = (self.advise .adviseOutputEnd).liveDisplays := by
  unfold TilingWindowManagerPolicy.advise
  dsimp only
  split
  · rfl
  · rename_i clean
    exact settled (by simpa using clean)

theorem liveDisplays_end : (self.advise .adviseOutputEnd).liveDisplays = self.liveDisplays := by
  unfold TilingWindowManagerPolicy.advise
  dsimp only
  split <;> rfl

/-- The policy tallies the extents in the notices the monitor sends, none of which is an
update between equivalent outputs. -/
theorem liveDisplays_notices (told : List (Notice Output))
    (real : ∀ updated original, .update updated original ∈ told →
      ¬equivalentDisplayArea updated original) :
    ((told.map OutputNotice.ofNotice).foldl advise self).liveDisplays =
      told.foldl (Notice.tally Output.extents) self.liveDisplays := by
  induction told generalizing self with
  | nil => rfl
  | cons notice rest ih =>
    rw [List.map_cons, List.foldl_cons, List.foldl_cons,
      ih fun updated original member => real updated original (by simp [member])]
    congr 1
    cases notice with
    | create output => rfl
    | update updated original =>
      have differs := real updated original (by simp)
      simp [OutputNotice.ofNotice, advise, differs, Notice.tally]
    | delete output => rfl

theorem after_concat : after (configs ++ [config]) =
    (((notices Output.identity equivalentDisplayArea (ActiveOutputsMonitor.after configs).outputs
      config.usable).map OutputNotice.ofNotice).foldl advise (after configs)).advise
        .adviseOutputEnd := by
  simp only [after, ActiveOutputsMonitor.after_concat,
    ActiveOutputsMonitor.configurationApplied_calls, List.foldl_append, List.foldl_cons,
    List.foldl_nil]
  rfl

theorem after_settled : (after configs).Settled :=
  Settled.foldl (fun _ => rfl) _

theorem liveDisplays_concat : (after (configs ++ [config])).liveDisplays =
    (notices Output.identity equivalentDisplayArea (ActiveOutputsMonitor.after configs).outputs
      config.usable).foldl (Notice.tally Output.extents) (after configs).liveDisplays := by
  rw [after_concat, liveDisplays_end, liveDisplays_notices]
  intro updated original told
  simp [update_mem_notices told]

theorem displays_concat :
    (after (configs ++ [config])).displays = (after (configs ++ [config])).liveDisplays := by
  rw [after_concat]
  exact (after_settled.foldl _).ended

end TilingWindowManagerPolicy

section Steady

variable {old new : List Output}

theorem extents_originals {items : List Output}
    (quiet : ∀ o ∈ items, silent Output.identity equivalentDisplayArea old o)
    (available : ∀ o ∈ items, o.bad = false) :
    (originals Output.identity old items).map Output.extents = items.map Output.extents := by
  induction items with
  | nil => rfl
  | cons o rest ih =>
    have quiet' := quiet o (by simp)
    have others := ih (fun o' member => quiet o' (by simp [member]))
      fun o' member => available o' (by simp [member])
    unfold silent at quiet'
    cases found : lookup Output.identity old o.identity with
    | none => simp [found] at quiet'
    | some original =>
      have alike : equivalentDisplayArea o original := by simpa [found] using quiet'
      have here := available o (by simp)
      have there := equivalentDisplayArea_bad alike ▸ here
      have same := ((equivalentDisplayArea_iff here there).mp alike).1
      simpa [originals, found, same] using others

theorem silent_bad (distinct : (old.map Output.identity).Nodup) (o : Output) :
    (o.bad && silent Output.identity equivalentDisplayArea old o) =
      (o.bad && old.any fun o' => o'.isSameOutput o && o'.bad) := by
  cases gone : o.bad with
  | false => rfl
  | true =>
    rw [Bool.true_and, Bool.true_and, Bool.eq_iff_iff, silent, Option.any_eq_true,
      List.any_eq_true]
    constructor
    · rintro ⟨original, found, alike⟩
      refine ⟨original, mem_of_lookup found, ?_⟩
      rw [Bool.and_eq_true, isSameOutput_iff]
      exact ⟨key_of_lookup found, equivalentDisplayArea_bad alike ▸ gone⟩
    · rintro ⟨original, member, met⟩
      rw [Bool.and_eq_true, isSameOutput_iff] at met
      exact ⟨original, (lookup_eq_some distinct).mpr ⟨member, met.1⟩,
        equivalentDisplayArea_unavailable gone met.2⟩

/-- The outputs of `items` that are unavailable now and in `others`. -/
def idle (items others : List Output) : List Output :=
  items.filter fun o => o.bad && others.any fun o' => o'.isSameOutput o && o'.bad

theorem mem_idle {items others : List Output} {o : Output} : o ∈ idle items others ↔
    o ∈ items ∧ o.bad ∧ ∃ o' ∈ others, o'.identity = o.identity ∧ o'.bad := by
  simp [idle, isSameOutput_iff]

theorem originals_idle (distinctOld : (old.map Output.identity).Nodup)
    (distinctNew : (new.map Output.identity).Nodup) :
    (originals Output.identity old (idle new old)).Perm (idle old new) := by
  have distinct : ((idle new old).map Output.identity).Nodup :=
    distinctNew.sublist (List.filter_sublist.map Output.identity)
  refine (originals_perm distinctOld distinct).trans (List.Perm.of_eq (List.filter_congr ?_))
  intro o member
  rw [Bool.eq_iff_iff, Option.isSome_iff_exists]
  constructor
  · rintro ⟨successor, found⟩
    have same := key_of_lookup found
    obtain ⟨memberNew, gone, o', member', same', gone'⟩ := mem_idle.mp (mem_of_lookup found)
    obtain rfl := List.inj_on_of_nodup_map distinctOld member' member (same'.trans same)
    simp only [Bool.and_eq_true, List.any_eq_true, isSameOutput_iff]
    exact ⟨gone', successor, memberNew, same, gone⟩
  · simp only [Bool.and_eq_true, List.any_eq_true, isSameOutput_iff]
    rintro ⟨gone, successor, memberNew, same, gone'⟩
    have idleNew := mem_idle.mpr ⟨memberNew, gone', o, member, same.symm, gone⟩
    exact ⟨successor, (lookup_eq_some distinct).mpr ⟨idleNew, same⟩⟩

/-- The policy is left with the extents of the new outputs if and only if those that stay
unavailable have kept theirs between them. -/
theorem tally_extents_iff (distinctOld : (old.map Output.identity).Nodup)
    (distinctNew : (new.map Output.identity).Nodup) :
    (notices Output.identity equivalentDisplayArea old new).foldl (Notice.tally Output.extents)
        (old.map Output.extents : Multiset Rectangle) = (new.map Output.extents : Multiset Rectangle) ↔
      ((idle new old).map Output.extents : Multiset Rectangle) =
        ((idle old new).map Output.extents : Multiset Rectangle) := by
  let quiet := new.filter (silent Output.identity equivalentDisplayArea old)
  have gone : quiet.filter Output.bad = idle new old := by
    simp only [quiet, List.filter_filter, silent_bad distinctOld]
    rfl
  have parts : (idle new old ++ quiet.filter fun o => !o.bad).Perm quiet := by
    rw [← gone]
    exact List.filter_append_perm _ _
  have available : (originals Output.identity old (quiet.filter fun o => !o.bad)).map
      Output.extents = (quiet.filter fun o => !o.bad).map Output.extents :=
    extents_originals (fun o member => by simp_all [quiet]) (fun o member => by simp_all)
  have before : ((originals Output.identity old quiet).map Output.extents : Multiset Rectangle) =
      ((idle old new).map Output.extents : Multiset Rectangle) +
        ((quiet.filter fun o => !o.bad).map Output.extents : Multiset Rectangle) := by
    rw [← available, Multiset.coe_add, ← List.map_append]
    refine Multiset.coe_eq_coe.mpr (List.Perm.map _ ?_)
    apply (parts.symm.filterMap _).trans
    rw [List.filterMap_append]
    exact (originals_idle distinctOld distinctNew).append_right _
  have now : (quiet.map Output.extents : Multiset Rectangle) =
      ((idle new old).map Output.extents : Multiset Rectangle) +
        ((quiet.filter fun o => !o.bad).map Output.extents : Multiset Rectangle) := by
    rw [Multiset.coe_add, ← List.map_append]
    exact Multiset.coe_eq_coe.mpr (parts.symm.map _)
  rw [tally_replaced_iff distinctOld distinctNew]
  change ((originals Output.identity old quiet).map Output.extents : Multiset Rectangle) =
    (quiet.map Output.extents : Multiset Rectangle) ↔ _
  rw [before, now, add_left_inj]
  exact eq_comm

end Steady

/-- One more configuration keeps the policy on track if and only if it is steady. -/
theorem tracksDisplays_concat {configs : List DisplayConfiguration}
    {config : DisplayConfiguration} (tracks : TracksDisplays configs) :
    TracksDisplays (configs ++ [config]) ↔ ∀ last ∈ configs.getLast?, last.Steady config := by
  have live : TracksDisplays (configs ++ [config]) ↔
      (TilingWindowManagerPolicy.after (configs ++ [config])).liveDisplays =
        (config.usable.map Output.extents : Multiset Rectangle) := by
    simp only [TracksDisplays, TilingWindowManagerPolicy.displays_concat, and_self,
      ActiveOutputsMonitor.after_concat]
    rfl
  rw [live, TilingWindowManagerPolicy.liveDisplays_concat, tracks.1,
    tally_extents_iff ActiveOutputsMonitor.after_distinct config.usable_distinct]
  rcases List.eq_nil_or_concat configs with rfl | ⟨front, last, rfl⟩
  · simp [ActiveOutputsMonitor.after, idle]
  · simp only [List.concat_eq_append, ActiveOutputsMonitor.after_concat,
      List.getLast?_concat, Option.mem_some_iff, forall_eq']
    rfl

/-- The policy tracks the displays after every configuration if and only if no configuration
changes the extents of the outputs that are unavailable before and after it. -/
theorem tiling_policy_tracks_displays (configs : List DisplayConfiguration) :
    (∀ front, front <+: configs → TracksDisplays front) ↔
      configs.IsChain DisplayConfiguration.Steady := by
  induction configs using List.reverseRecOn with
  | nil =>
    constructor
    · exact fun _ => .nil
    · intro _ front before
      obtain rfl := List.prefix_nil.mp before
      exact ⟨rfl, rfl⟩
  | append_singleton configs config ih =>
    rw [List.isChain_append]
    constructor
    · intro tracks
      have earlier (front) (before : front <+: configs) : TracksDisplays front :=
        tracks front (before.trans (List.prefix_append _ _))
      refine ⟨ih.mp earlier, .singleton _, fun last isLast next isNext => ?_⟩
      obtain rfl : config = next := by simpa using isNext
      exact (tracksDisplays_concat (earlier _ List.prefix_rfl)).mp (tracks _ List.prefix_rfl)
        last isLast
    · rintro ⟨chain, -, steady⟩ front before
      have earlier := ih.mpr chain
      rcases List.prefix_concat_iff.mp before with rfl | before
      · exact (tracksDisplays_concat (earlier _ List.prefix_rfl)).mpr
          fun last isLast => steady last isLast config (by simp)
      · exact earlier front before

def Output.spare (topLeft : Point) : Output where
  cardId := 0
  id := 1
  type := .hdmia
  physicalSizeMm := ⟨300, 200⟩
  connected := true
  used := false
  currentFormat := 4
  powerMode := .on
  orientation := 0
  scale := 1
  formFactor := 1
  topLeft := topLeft
  modes := [⟨640, 480⟩]
  currentModeIndex := 0
  valid := true

def DisplayConfiguration.single (o : Output) : DisplayConfiguration where
  outputs := [o]
  distinct := by simp

/-- An unused output is created, then moved without a notice. -/
theorem tiling_policy_tracks_displays_fails :
    ¬∀ configs front, front <+: configs → TracksDisplays front := by
  intro claim
  have tracks := claim [.single (.spare ⟨0, 0⟩), .single (.spare ⟨640, 0⟩)] _ List.prefix_rfl
  exact absurd tracks.1 (by decide)

end Miral
