import Miral.Library.Register
import Miral.Geometry
import Mathlib.Data.List.Chain

/-! Display outputs and `ActiveOutputsMonitor`, which tells its listeners what changes from one
display configuration to the next. -/
namespace Miral

/-- `Output::Type`. -/
inductive OutputType where
  | unknown | vga | dvii | dvid | dvia | composite | svideo | lvds | component | ninepindin
  | displayport | hdmia | hdmib | tv | edp
  deriving DecidableEq, Repr

inductive PowerMode where
  | on | standby | suspend | off
  deriving DecidableEq, Repr

/-- The enumerations of Mir that are only ever compared stand as their values. -/
abbrev Orientation := Nat
abbrev PixelFormat := Nat
abbrev FormFactor := Nat

structure OutputId where
  cardId : Int
  id : Int
  deriving DecidableEq, Repr

/-- `Output`, with the fields of the `DisplayConfigurationOutput` it wraps. `modes` holds the
size of each mode, and `valid` is what the wrapped `valid()` answers. -/
structure Output where
  cardId : Int
  id : Int
  type : OutputType
  physicalSizeMm : Size
  connected : Bool
  used : Bool
  currentFormat : PixelFormat
  powerMode : PowerMode
  orientation : Orientation
  scale : Rat
  formFactor : FormFactor
  topLeft : Point
  modes : List Size
  currentModeIndex : Nat
  valid : Bool
  deriving DecidableEq

namespace Output

def identity (o : Output) : OutputId := ⟨o.cardId, o.id⟩

def extents (o : Output) : Rectangle := ⟨o.topLeft, o.modes.getD o.currentModeIndex default⟩

def isSameOutput (o other : Output) : Bool := o.cardId = other.cardId && o.id = other.id

/-- `lhs_bad` and `rhs_bad`: the output is not available. -/
def bad (o : Output) : Bool := !o.valid || !o.used || !o.connected || o.powerMode ≠ .on

end Output

def equivalentDisplayArea (lhs rhs : Output) : Bool :=
  if lhs.bad || rhs.bad then lhs.bad == rhs.bad
  else
    lhs.extents = rhs.extents &&
    lhs.formFactor = rhs.formFactor &&
    lhs.orientation = rhs.orientation &&
    lhs.currentFormat = rhs.currentFormat &&
    lhs.physicalSizeMm = rhs.physicalSizeMm &&
    lhs.scale = rhs.scale &&
    lhs.type = rhs.type

/-- A configuration as `for_each_output` visits it: each output once. -/
structure DisplayConfiguration where
  outputs : List Output
  distinct : (outputs.map Output.identity).Nodup

/-- The calls of `ActiveOutputsListener`. -/
inductive OutputNotice where
  | adviseOutputBegin
  | adviseOutputCreate (output : Output)
  | adviseOutputUpdate (updated original : Output)
  | adviseOutputDelete (output : Output)
  | adviseOutputEnd
  deriving DecidableEq

/-- The outputs the monitor holds, and the calls it has made on a listener that was
registered before the first configuration. -/
structure ActiveOutputsMonitor where
  outputs : List Output
  calls : List OutputNotice

def DisplayConfiguration.usable (config : DisplayConfiguration) : List Output :=
  config.outputs.filter fun o => o.connected && o.valid

namespace ActiveOutputsMonitor

/-- What the first loop tells of one output. -/
def adviseOutput (outputs : List Output) (o : Output) : List OutputNotice :=
  match outputs.find? (·.isSameOutput o) with
  | none => [.adviseOutputCreate o]
  | some op => if !equivalentDisplayArea o op then [.adviseOutputUpdate o op] else []

/-- What the second loop tells of one output. -/
def adviseGone (currentOutputs : List Output) (o : Output) : List OutputNotice :=
  match currentOutputs.find? (·.isSameOutput o) with
  | none => [.adviseOutputDelete o]
  | some _ => []

/-- `configuration_applied`. -/
def configurationApplied (self : ActiveOutputsMonitor) (config : DisplayConfiguration) :
    ActiveOutputsMonitor :=
  let currentOutputs := config.usable
  { outputs := currentOutputs
    calls := self.calls ++ [.adviseOutputBegin] ++
      currentOutputs.flatMap (adviseOutput self.outputs) ++
      self.outputs.flatMap (adviseGone currentOutputs) ++ [.adviseOutputEnd] }

def after (configs : List DisplayConfiguration) : ActiveOutputsMonitor :=
  configs.foldl configurationApplied ⟨[], []⟩

end ActiveOutputsMonitor

/-- A listener that keeps the outputs it is told of under their identities. It accepts no call
to create what it has, or to update or delete what it has not. -/
def OutputNotice.keep (copy : OutputId → Option Output) :
    OutputNotice → Option (OutputId → Option Output)
  | adviseOutputCreate o =>
    if copy o.identity = none then some (Function.update copy o.identity (some o)) else none
  | adviseOutputUpdate updated _ =>
    if copy updated.identity = none then none
    else some (Function.update copy updated.identity (some updated))
  | adviseOutputDelete o =>
    if copy o.identity = none then none else some (Function.update copy o.identity none)
  | adviseOutputBegin | adviseOutputEnd => some copy

open Register

def OutputNotice.ofNotice : Notice Output → OutputNotice
  | .create o => adviseOutputCreate o
  | .update updated original => adviseOutputUpdate updated original
  | .delete o => adviseOutputDelete o

section Monitor

variable {a b c o : Output} {outputs : List Output}

theorem isSameOutput_iff : a.isSameOutput b ↔ a.identity = b.identity := by
  simp [Output.isSameOutput, Output.identity]

theorem find_isSameOutput :
    outputs.find? (·.isSameOutput o) = lookup Output.identity outputs o.identity := by
  refine congrArg (List.find? · outputs) (funext fun other => ?_)
  rw [Bool.eq_iff_iff, isSameOutput_iff, decide_eq_true_eq]

theorem equivalentDisplayArea_refl (o : Output) : equivalentDisplayArea o o := by
  simp [equivalentDisplayArea]

theorem equivalentDisplayArea_bad (alike : equivalentDisplayArea a b) : a.bad = b.bad := by
  unfold equivalentDisplayArea at alike
  split at alike
  · simpa using alike
  · rename_i available
    simp only [Bool.or_eq_true, not_or, Bool.not_eq_true] at available
    rw [available.1, available.2]

theorem equivalentDisplayArea_iff (available : a.bad = false) (available' : b.bad = false) :
    equivalentDisplayArea a b ↔ a.extents = b.extents ∧ a.formFactor = b.formFactor ∧
      a.orientation = b.orientation ∧ a.currentFormat = b.currentFormat ∧
      a.physicalSizeMm = b.physicalSizeMm ∧ a.scale = b.scale ∧ a.type = b.type := by
  simp [equivalentDisplayArea, available, available', and_assoc]

theorem equivalentDisplayArea_unavailable (gone : a.bad) (gone' : b.bad) :
    equivalentDisplayArea a b := by
  simp [equivalentDisplayArea, gone, gone']

theorem equivalentDisplayArea_symm (alike : equivalentDisplayArea a b) :
    equivalentDisplayArea b a := by
  have same := equivalentDisplayArea_bad alike
  cases available : a.bad with
  | true => exact equivalentDisplayArea_unavailable (same ▸ available) available
  | false =>
    have available' := same ▸ available
    rw [equivalentDisplayArea_iff available available'] at alike
    rw [equivalentDisplayArea_iff available' available]
    obtain ⟨h₁, h₂, h₃, h₄, h₅, h₆, h₇⟩ := alike
    exact ⟨h₁.symm, h₂.symm, h₃.symm, h₄.symm, h₅.symm, h₆.symm, h₇.symm⟩

theorem equivalentDisplayArea_trans (alike : equivalentDisplayArea a b)
    (alike' : equivalentDisplayArea b c) : equivalentDisplayArea a c := by
  have same := equivalentDisplayArea_bad alike
  have same' := equivalentDisplayArea_bad alike'
  cases available : a.bad with
  | true =>
    exact equivalentDisplayArea_unavailable available ((same.trans same').symm.trans available)
  | false =>
    have availableB := same ▸ available
    have availableC := same' ▸ availableB
    rw [equivalentDisplayArea_iff available availableB] at alike
    rw [equivalentDisplayArea_iff availableB availableC] at alike'
    rw [equivalentDisplayArea_iff available availableC]
    obtain ⟨h₁, h₂, h₃, h₄, h₅, h₆, h₇⟩ := alike
    obtain ⟨k₁, k₂, k₃, k₄, k₅, k₆, k₇⟩ := alike'
    exact ⟨h₁.trans k₁, h₂.trans k₂, h₃.trans k₃, h₄.trans k₄, h₅.trans k₅, h₆.trans k₆,
      h₇.trans k₇⟩

theorem adviseOutput_eq : ActiveOutputsMonitor.adviseOutput outputs o =
    (arrival Output.identity equivalentDisplayArea outputs o).map OutputNotice.ofNotice := by
  unfold ActiveOutputsMonitor.adviseOutput arrival
  rw [find_isSameOutput]
  cases lookup Output.identity outputs o.identity with
  | none => rfl
  | some op => cases alike : equivalentDisplayArea o op <;> simp [alike, OutputNotice.ofNotice]

theorem adviseGone_eq : ActiveOutputsMonitor.adviseGone outputs o =
    (departure Output.identity outputs o).map OutputNotice.ofNotice := by
  unfold ActiveOutputsMonitor.adviseGone departure
  rw [find_isSameOutput]
  cases lookup Output.identity outputs o.identity <;> rfl

theorem DisplayConfiguration.usable_distinct (config : DisplayConfiguration) :
    (config.usable.map Output.identity).Nodup :=
  config.distinct.sublist (List.filter_sublist.map Output.identity)

namespace ActiveOutputsMonitor

variable {self : ActiveOutputsMonitor} {config : DisplayConfiguration}
  {configs : List DisplayConfiguration}

theorem configurationApplied_calls : (self.configurationApplied config).calls =
    self.calls ++ [.adviseOutputBegin] ++
      (notices Output.identity equivalentDisplayArea self.outputs config.usable).map .ofNotice ++
      [.adviseOutputEnd] := by
  have told : adviseOutput self.outputs = fun o =>
      (arrival Output.identity equivalentDisplayArea self.outputs o).map .ofNotice :=
    funext fun _ => adviseOutput_eq
  have gone : adviseGone config.usable = fun o =>
      (departure Output.identity config.usable o).map .ofNotice :=
    funext fun _ => adviseGone_eq
  simp only [configurationApplied, told, gone, notices, List.map_append, List.map_flatMap,
    List.append_assoc]

theorem after_concat :
    after (configs ++ [config]) = (after configs).configurationApplied config := by
  simp [after]

theorem after_distinct : ((after configs).outputs.map Output.identity).Nodup := by
  rcases List.eq_nil_or_concat configs with rfl | ⟨front, config, rfl⟩
  · exact List.nodup_nil
  · rw [List.concat_eq_append, after_concat]
    exact config.usable_distinct

end ActiveOutputsMonitor

theorem keep_ofNotice {copy : OutputId → Option Output} (notice : Notice Output) :
    (OutputNotice.ofNotice notice).keep copy = notice.replay Output.identity copy := by
  cases notice <;> rfl

theorem keep_notices {copy : OutputId → Option Output} (told : List (Notice Output)) :
    (told.map OutputNotice.ofNotice).foldlM OutputNotice.keep copy =
      told.foldlM (Notice.replay Output.identity) copy := by
  rw [List.foldlM_map]
  exact congrArg (List.foldlM · copy told) (funext₂ fun _ notice => keep_ofNotice notice)

end Monitor

/-- The listener's copy and the monitor agree on which outputs there are, and on each of them
up to `equivalent_display_area`. -/
def Mirrors (copy : OutputId → Option Output) (outputs : List Output) : Prop :=
  (∀ id, (copy id).isSome ↔ ∃ o ∈ outputs, o.identity = id) ∧
    ∀ o ∈ outputs, ∀ mine, copy o.identity = some mine → equivalentDisplayArea mine o

theorem mirrors_iff {copy : OutputId → Option Output} {outputs : List Output}
    (distinct : (outputs.map Output.identity).Nodup) : Mirrors copy outputs ↔
      Tracks Output.identity (fun a b => equivalentDisplayArea a b) copy outputs :=
  (tracks_iff distinct).symm

/-- A listener can replay every call, and mirrors the monitor after each configuration: after
each `advise_output_end`, since any number of configurations may have been applied. -/
theorem output_notifications_replay (configs : List DisplayConfiguration) :
    ∃ copy, (ActiveOutputsMonitor.after configs).calls.foldlM OutputNotice.keep (fun _ => none) =
        some copy ∧
      Mirrors copy (ActiveOutputsMonitor.after configs).outputs := by
  induction configs using List.reverseRecOn with
  | nil => exact ⟨fun _ => none, rfl, by simp [Mirrors, ActiveOutputsMonitor.after]⟩
  | append_singleton front config ih =>
    obtain ⟨copy, replayed, mirrors⟩ := ih
    have distinct : ((ActiveOutputsMonitor.after front).outputs.map Output.identity).Nodup :=
      ActiveOutputsMonitor.after_distinct
    obtain ⟨copy', told, tracks⟩ := ((mirrors_iff distinct).mp mirrors).replay
      equivalentDisplayArea_refl equivalentDisplayArea_trans
      equivalentDisplayArea_symm distinct config.usable_distinct
    refine ⟨copy', ?_, ?_⟩
    · rw [ActiveOutputsMonitor.after_concat, ActiveOutputsMonitor.configurationApplied_calls]
      simp only [List.foldlM_append, replayed, keep_notices, told, List.foldlM_cons,
        List.foldlM_nil, OutputNotice.keep, Option.bind_eq_bind, Option.bind_some,
        Option.pure_def]
    · rw [ActiveOutputsMonitor.after_concat]
      exact (mirrors_iff config.usable_distinct).mpr tracks

end Miral
