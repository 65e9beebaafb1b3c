import Mathlib.Data.List.Nodup
import Miral.Library.Program
import Miral.Library.Tokens

/-! `Keymap`: the keyboards it knows from the notices of the input device hub, and the layout,
variant and options that it gives to each of them. -/
namespace Miral.Keymap

open Program Prog

/-- What a keymap string names. -/
structure Names where
  layout : List Char
  variant : List Char
  options : List Char
  deriving DecidableEq

/-- A `mir::input::Keymap`, of which this code only sets the names. -/
structure DeviceKeymap (M : Type) where
  model : M
  names : Names
  deriving DecidableEq

/-- What a device answers when it is asked. -/
structure Device (M : Type) where
  keyboard : Bool
  configuration : Option (DeviceKeymap M)

/-- `Keymap::Self`, what the devices answer at the moment, and the keymaps they have been given. -/
structure Self (M : Type) where
  names : Names
  keyboards : List Nat
  devices : Nat → Device M
  applied : List (Nat × DeviceKeymap M)

inductive Failure where
  /-- `keyboards.erase(end(keyboards))`, which is undefined. -/
  | pastTheEnd
  /-- The options have no `keymap`. -/
  | noSuchOption
  deriving DecidableEq

/-- `get_next_token()` and what it leaves. -/
def nextToken (km : List Char) : List Char × List Char :=
  match km.findIdx? (· = '+') with
  | some i => (km.take i, km.drop (i + 1))
  | none => (km, [])

def parse (keymap : List Char) : Names :=
  let (layout, km) := nextToken keymap
  let (variant, km) := nextToken km
  let (options, _) := nextToken km
  ⟨layout, variant, options⟩

section Code

variable {M : Type} (standard : DeviceKeymap M)

/-- The keymap a device is given: its own, or else the standard one, with the names of `self`. -/
def Self.keymapFor (self : Self M) (device : Nat) : DeviceKeymap M :=
  { (self.devices device).configuration.getD standard with names := self.names }

def applyKeymap (device : Nat) : Prog Failure (Self M) Unit :=
  update fun self =>
    { self with applied := self.applied ++ [(device, self.keymapFor standard device)] }

def setKeymap (keymap : List Char) : Prog Failure (Self M) Unit := do
  update fun self => { self with names := parse keymap }
  let self ← state
  forEach (applyKeymap standard) self.keyboards

def addKeyboard (device : Nat) : Prog Failure (Self M) Unit := do
  update fun self => { self with keyboards := self.keyboards ++ [device] }
  applyKeymap standard device

def eraseKeyboard (device : Nat) : Prog Failure (Self M) Unit :=
  update fun self => { self with keyboards := self.keyboards.erase device }

def deviceAdded (device : Nat) : Prog Failure (Self M) Unit := do
  let self ← state
  onlyIf ((self.devices device).keyboard = true) (addKeyboard standard device)

def deviceChanged (device : Nat) : Prog Failure (Self M) Unit := do
  let self ← state
  if (self.devices device).keyboard then
    onlyIf (device ∉ self.keyboards) (addKeyboard standard device)
  else onlyIf (device ∈ self.keyboards) (eraseKeyboard device)

def deviceRemoved (device : Nat) : Prog Failure (Self M) Unit := do
  let self ← state
  onlyIf ((self.devices device).keyboard = true) do
    failIf (device ∉ self.keyboards) .pastTheEnd
    eraseKeyboard device

/-- The callback that `operator()` registers, with the option that the server then has. -/
def initialized (option : Option (List Char)) : Prog Failure (Self M) Unit := do
  let self ← state
  onlyIf (self.names.layout = []) do
    match option with
    | some keymap => setKeymap standard keymap
    | none => fail .noSuchOption

end Code

/-- A new `Keymap`; nothing has been said about any device. -/
def Self.ofKeymap {M : Type} (keymap : List Char) : Self M :=
  ⟨parse keymap, [], fun _ => ⟨false, none⟩, []⟩

/-- What happens to a `Keymap`: calls, notices, and devices that change their answers. -/
inductive Notice (M : Type) where
  | setKeymap (keymap : List Char)
  | initialized (option : Option (List Char))
  | answers (device : Nat) (answer : Device M)
  | deviceAdded (device : Nat)
  | deviceChanged (device : Nat)
  | deviceRemoved (device : Nat)

def Notice.act {M : Type} (standard : DeviceKeymap M) : Notice M → Prog Failure (Self M) Unit
  | setKeymap keymap => Keymap.setKeymap standard keymap
  | initialized option => Keymap.initialized standard option
  | answers device answer =>
    update fun self => { self with devices := Function.update self.devices device answer }
  | deviceAdded device => Keymap.deviceAdded standard device
  | deviceChanged device => Keymap.deviceChanged standard device
  | deviceRemoved device => Keymap.deviceRemoved device

section Parse

variable {km : List Char} {layout variant options rest : List Char}

theorem nextToken_spec (km : List Char) : (km.splitOn '+').head? = some (nextToken km).1 ∧
    ∀ i, (km.splitOn '+').tail.getD i [] = ((nextToken km).2.splitOn '+').getD i [] := by
  unfold nextToken
  cases found : km.findIdx? (· = '+') with
  | some i =>
    have split := Tokens.splitOnP_of_findIdx? found
    simp only [beq_eq_decide, List.splitOn] at split ⊢
    exact ⟨by simp [split], fun j => by simp [split]⟩
  | none =>
    have free := List.findIdx?_eq_none_iff.mp found
    rw [List.splitOn_eq_singleton fun member => by simpa using free _ member]
    refine ⟨rfl, fun i => ?_⟩
    cases i <;> rfl

/-- The names are the first three pieces between the signs; what is missing is empty. -/
theorem parse_eq : parse km = ⟨(km.splitOn '+').getD 0 [], (km.splitOn '+').getD 1 [],
    (km.splitOn '+').getD 2 []⟩ := by
  have first (km : List Char) : (nextToken km).1 = (km.splitOn '+').getD 0 [] := by
    have head := (nextToken_spec km).1
    rw [List.head?_eq_getElem?] at head
    rw [List.getD_eq_getElem?_getD, head, Option.getD_some]
  have next (km : List Char) (i : Nat) :
      (km.splitOn '+').getD (i + 1) [] = ((nextToken km).2.splitOn '+').getD i [] := by
    rw [← (nextToken_spec km).2 i, List.getD_eq_getElem?_getD, List.getD_eq_getElem?_getD,
      List.getElem?_tail]
  rw [next km 0, next km 1, next _ 0, ← first, ← first, ← first]
  rfl

end Parse

section Runs

variable {M : Type} {standard : DeviceKeymap M} {self : Self M} {device : Nat}

def Self.applyAll (standard : DeviceKeymap M) (self : Self M) (devices : List Nat) : Self M :=
  { self with applied := self.applied ++ devices.map fun d => (d, self.keymapFor standard d) }

theorem foldl_apply (devices : List Nat) :
    devices.foldl (fun self d => self.applyAll standard [d]) self =
      self.applyAll standard devices := by
  induction devices generalizing self with
  | nil => simp [Self.applyAll]
  | cons d rest ih =>
    rw [List.foldl_cons, ih]
    simp [Self.applyAll, Self.keymapFor]

theorem setKeymap_run (keymap : List Char) : setKeymap standard keymap self =
    .returned () ({ self with names := parse keymap }.applyAll standard self.keyboards) := by
  have loop :
      forEach (applyKeymap standard) self.keyboards { self with names := parse keymap } = _ :=
    forEach_run fun d _ s => update_run _ s
  exact loop.trans (congrArg (Outcome.returned ()) (foldl_apply _))

theorem onlyIf_run {c : Prop} [Decidable c] {p : Prog Failure (Self M) Unit} :
    onlyIf c p self = if c then p self else .returned () self := by
  unfold onlyIf
  split <;> rfl

theorem initialized_run {option : Option (List Char)} : initialized standard option self =
    if self.names.layout = [] then
      match option with
      | some keymap => setKeymap standard keymap self
      | none => .thrown .noSuchOption self
    else .returned () self := by
  cases option <;> exact onlyIf_run

theorem deviceAdded_run : deviceAdded standard device self =
    if (self.devices device).keyboard then addKeyboard standard device self
    else .returned () self := onlyIf_run

theorem deviceChanged_run : deviceChanged standard device self =
    if (self.devices device).keyboard then
      if device ∉ self.keyboards then addKeyboard standard device self else .returned () self
    else if device ∈ self.keyboards then eraseKeyboard device self else .returned () self := by
  rw [← onlyIf_run, ← onlyIf_run]
  change (if (self.devices device).keyboard then _ else _ : Prog Failure (Self M) Unit) self = _
  split <;> rfl

theorem deviceRemoved_run : deviceRemoved device self =
    if (self.devices device).keyboard then
      if device ∈ self.keyboards then eraseKeyboard device self else .thrown .pastTheEnd self
    else .returned () self := by
  refine onlyIf_run.trans (if_congr Iff.rfl ?_ rfl)
  by_cases member : device ∈ self.keyboards <;> simp [bind_run, failIf, member] <;> rfl

/-- The `Keymap` and what its hub keeps in mind: the devices it has told of and not taken back,
and which of them were keyboards when it last told of them. -/
structure Hub (M : Type) where
  self : Self M
  present : List Nat
  announced : Nat → Bool

def Hub.start {M : Type} (keymap : List Char) : Hub M := ⟨.ofKeymap keymap, [], fun _ => false⟩

namespace Notice

/-- The hub adds what is not there and changes or removes what is; before it removes a device it
has told whether that is a keyboard. A server that starts has the option if there is need. -/
def Allowed (h : Hub M) : Notice M → Prop
  | initialized option => h.self.names.layout = [] → option.isSome
  | deviceAdded device => device ∉ h.present
  | deviceChanged device => device ∈ h.present
  | deviceRemoved device =>
    device ∈ h.present ∧ (h.self.devices device).keyboard = h.announced device
  | _ => True

def told (h : Hub M) (self : Self M) : Notice M → Hub M
  | deviceAdded device => ⟨self, device :: h.present,
      Function.update h.announced device (h.self.devices device).keyboard⟩
  | deviceChanged device => ⟨self, h.present,
      Function.update h.announced device (h.self.devices device).keyboard⟩
  | deviceRemoved device => ⟨self, h.present.filter (· ≠ device), h.announced⟩
  | _ => { h with self }

def Happens (standard : DeviceKeymap M) (notice : Notice M) (h next : Hub M) : Prop :=
  notice.Allowed h ∧ ∃ self, notice.act standard h.self = .returned () self ∧
    next = notice.told h self

/-- Whether the names are set, and so the keymaps of all keyboards. -/
def sets (names : Names) : Notice M → Bool
  | setKeymap _ => true
  | initialized _ => names.layout = []
  | _ => false

def names (names : Names) : Notice M → Names
  | setKeymap keymap => pieces keymap
  | initialized (some keymap) => if names.layout = [] then pieces keymap else names
  | _ => names
where
  pieces (keymap : List Char) : Names :=
    ⟨(keymap.splitOn '+').getD 0 [], (keymap.splitOn '+').getD 1 [], (keymap.splitOn '+').getD 2 []⟩

end Notice

def Self.latest (self : Self M) (device : Nat) : Option (DeviceKeymap M) :=
  (self.applied.reverse.find? (·.1 = device)).map Prod.snd

/-- The keyboards are the devices that were keyboards when the hub last told of them. -/
structure Hub.Known (h : Hub M) : Prop where
  single : h.self.keyboards.Nodup
  listed : ∀ d, d ∈ h.self.keyboards ↔ d ∈ h.present ∧ h.announced d

variable {h : Hub M} {notice : Notice M} {t : Self M} {devices : List Nat}

/-- What a notice does: the keyboards that are new, or all of them if the names are set, are given
their keymap. -/
structure Notice.Done (standard : DeviceKeymap M) (h : Hub M) (notice : Notice M) (t : Self M) :
    Prop where
  names : t.names = notice.names h.self.names
  applied : t.applied = h.self.applied ++
    (t.keyboards.filter fun d => notice.sets h.self.names ∨ d ∉ h.self.keyboards).map
      fun d => (d, t.keymapFor standard d)

variable (standard) in
theorem Hub.Known.setKeymap_done (known : h.Known) (keymap : List Char) :
    ∃ t, setKeymap standard keymap h.self = .returned () t ∧ t.names = Notice.names.pieces keymap ∧
      t.applied = h.self.applied ++ t.keyboards.map (fun d => (d, t.keymapFor standard d)) ∧
      { h with self := t }.Known :=
  ⟨_, setKeymap_run keymap, parse_eq, rfl, known.single, known.listed⟩

theorem filter_new {self : Self M} {devices : List Nat} (sub : ∀ d ∈ devices, d ∈ self.keyboards) :
    devices.filter (fun d => false = true ∨ d ∉ self.keyboards) = [] := by
  refine List.filter_eq_nil_iff.mpr fun d member => ?_
  simp [sub d member]

theorem filter_added (absent : device ∉ self.keyboards) :
    (self.keyboards ++ [device]).filter (fun d => false = true ∨ d ∉ self.keyboards) =
      [device] := by
  rw [List.filter_append, filter_new fun _ => id]
  simp [absent]

theorem done_of_quiet (names : t.names = h.self.names) (applied : t.applied = h.self.applied)
    (sub : ∀ d ∈ t.keyboards, d ∈ h.self.keyboards)
    (named : notice.names h.self.names = h.self.names)
    (quiet : notice.sets h.self.names = false) : notice.Done standard h t := by
  refine ⟨names.trans named.symm, ?_⟩
  rw [quiet, filter_new sub, List.map_nil, List.append_nil, applied]

theorem done_of_added (absent : device ∉ h.self.keyboards)
    (named : notice.names h.self.names = h.self.names) (quiet : notice.sets h.self.names = false) :
    notice.Done standard h
      ({ h.self with keyboards := h.self.keyboards ++ [device] }.applyAll standard [device]) := by
  refine ⟨named.symm, ?_⟩
  rw [quiet]
  change _ = h.self.applied ++ ((h.self.keyboards ++ [device]).filter _).map _
  rw [filter_added absent]
  rfl

theorem Hub.Known.added (known : h.Known) (absent : device ∉ h.self.keyboards)
    (present : List Nat) (there : ∀ d, d ∈ present ↔ d = device ∨ d ∈ h.present)
    {answer : Bool} (keyboard : answer = true) :
    Known ⟨{ h.self with keyboards := h.self.keyboards ++ [device] }.applyAll standard [device],
      present, Function.update h.announced device answer⟩ := by
  refine ⟨List.concat_eq_append ▸ known.single.concat absent, fun d => ?_⟩
  change d ∈ h.self.keyboards ++ [device] ↔ _
  by_cases eq : d = device
  · subst eq
    simp [there, keyboard]
  · simp [there, eq, known.listed d]

theorem Hub.Known.agreed (known : h.Known) (present : List Nat)
    (there : ∀ d, d ∈ present ↔ d = device ∨ d ∈ h.present) {answer : Bool}
    (agree : device ∈ h.self.keyboards ↔ answer = true) :
    Known ⟨h.self, present, Function.update h.announced device answer⟩ := by
  refine ⟨known.single, fun d => ?_⟩
  by_cases eq : d = device
  · subst eq
    simp [there, agree]
  · simp [there, eq, known.listed d]

theorem Hub.Known.erased (known : h.Known) (present : List Nat) (announced : Nat → Bool)
    (there : ∀ d, d ≠ device → (d ∈ present ∧ announced d ↔ d ∈ h.present ∧ h.announced d))
    (gone : ¬(device ∈ present ∧ announced device)) :
    Known ⟨{ h.self with keyboards := h.self.keyboards.erase device }, present, announced⟩ := by
  refine ⟨known.single.erase device, fun d => ?_⟩
  change d ∈ h.self.keyboards.erase device ↔ _
  rw [known.single.mem_erase_iff]
  by_cases eq : d = device
  · subst eq
    simpa using gone
  · rw [there d eq, ← known.listed d]
    simp [eq]

variable (standard) in
/-- Every notice that is allowed is carried out; none erases past the end. -/
theorem Hub.Known.act (known : h.Known) (allowed : notice.Allowed h) :
    ∃ t, notice.act standard h.self = .returned () t ∧ notice.Done standard h t ∧
      (notice.told h t).Known := by
  cases notice with
  | setKeymap keymap =>
    obtain ⟨t, run, names, applied, kept⟩ := known.setKeymap_done standard keymap
    exact ⟨t, run, ⟨names, by simpa [Notice.sets] using applied⟩, kept⟩
  | initialized option =>
    by_cases none : h.self.names.layout = []
    · obtain ⟨keymap, rfl⟩ := Option.isSome_iff_exists.mp (allowed none)
      obtain ⟨t, run, names, applied, kept⟩ := known.setKeymap_done standard keymap
      refine ⟨t, ?_, ⟨?_, by simpa [Notice.sets, none] using applied⟩, kept⟩
      · rw [Notice.act, initialized_run, if_pos none, ← run]
      · rw [names, Notice.names, if_pos none]
    · have quiet : (Notice.initialized (M := M) option).sets h.self.names = false := by
        simpa [Notice.sets] using none
      refine ⟨h.self, ?_, done_of_quiet rfl rfl (fun _ => id) ?_ quiet, known⟩
      · rw [Notice.act, initialized_run, if_neg none]
      · cases option with
        | none => rfl
        | some keymap => rw [Notice.names, if_neg none]
  | answers device answer =>
    exact ⟨_, rfl, done_of_quiet rfl rfl (fun _ => id) rfl rfl, known.single, known.listed⟩
  | deviceAdded device =>
    have absent : device ∉ h.self.keyboards := fun member =>
      allowed ((known.listed device).mp member).1
    by_cases keyboard : (h.self.devices device).keyboard = true
    · refine ⟨_, ?_, done_of_added absent rfl rfl, known.added absent _ (by simp) keyboard⟩
      exact deviceAdded_run.trans (if_pos keyboard)
    · refine ⟨h.self, ?_, done_of_quiet rfl rfl (fun _ => id) rfl rfl,
        known.agreed _ (by simp) (by simp [absent, keyboard])⟩
      exact deviceAdded_run.trans (if_neg keyboard)
  | deviceChanged device =>
    have there (d : Nat) : d ∈ h.present ↔ d = device ∨ d ∈ h.present :=
      ⟨.inr, fun either => either.elim (fun eq => eq ▸ allowed) id⟩
    rw [Notice.act, deviceChanged_run]
    by_cases keyboard : (h.self.devices device).keyboard = true <;>
      by_cases member : device ∈ h.self.keyboards
    · simp only [keyboard, member, not_true_eq_false, ↓reduceIte]
      exact ⟨h.self, rfl, done_of_quiet rfl rfl (fun _ => id) rfl rfl,
        known.agreed _ there (by simp [member, keyboard])⟩
    · simp only [keyboard, member, not_false_eq_true, ↓reduceIte]
      exact ⟨_, rfl, done_of_added member rfl rfl, known.added member _ there keyboard⟩
    · simp only [keyboard, member, Bool.false_eq_true, ↓reduceIte]
      refine ⟨_, rfl, done_of_quiet rfl rfl (fun _ => List.mem_of_mem_erase) rfl rfl,
        known.erased _ _ (fun d other => ?_) ?_⟩
      · rw [Function.update_of_ne other]
      · rw [Function.update_self]
        exact fun both => keyboard both.2
    · simp only [keyboard, member, Bool.false_eq_true, ↓reduceIte]
      exact ⟨h.self, rfl, done_of_quiet rfl rfl (fun _ => id) rfl rfl,
        known.agreed _ there (by simp [member, keyboard])⟩
  | deviceRemoved device =>
    obtain ⟨present, agreed⟩ := allowed
    have listed : device ∈ h.self.keyboards ↔ (h.self.devices device).keyboard = true := by
      rw [known.listed, agreed]
      simp [present]
    have there (d : Nat) (other : d ≠ device) : d ∈ h.present.filter (· ≠ device) ∧ h.announced d ↔
        d ∈ h.present ∧ h.announced d := by
      simp [other]
    rw [Notice.act, deviceRemoved_run]
    by_cases keyboard : (h.self.devices device).keyboard = true
    · rw [if_pos keyboard, if_pos (listed.mpr keyboard)]
      exact ⟨_, rfl, done_of_quiet rfl rfl (fun _ => List.mem_of_mem_erase) rfl rfl,
        known.erased _ _ there (by simp)⟩
    · rw [if_neg keyboard]
      refine ⟨h.self, rfl, done_of_quiet rfl rfl (fun _ => id) rfl rfl, known.single, fun d => ?_⟩
      by_cases eq : d = device
      · subst eq
        simp [Notice.told, listed, keyboard]
      · exact (known.listed d).trans (there d eq).symm

def Self.Current (self : Self M) : Prop := ∀ d ∈ self.keyboards,
  ∃ latest, self.latest d = some latest ∧ latest.names = self.names

theorem latest_of_applied {before : Self M} {f : Nat → DeviceKeymap M}
    (applied : t.applied = before.applied ++ devices.map fun d => (d, f d)) (d : Nat) :
    t.latest d = if d ∈ devices then some (f d) else before.latest d := by
  rw [Self.latest, applied, List.reverse_append, List.find?_append, ← List.map_reverse,
    List.find?_map]
  by_cases member : d ∈ devices
  · cases found : devices.reverse.find? ((fun p => decide (p.1 = d)) ∘ fun d => (d, f d)) with
    | none =>
      exact absurd (List.find?_eq_none.mp found d (List.mem_reverse.mpr member)) (by simp)
    | some other =>
      obtain rfl : other = d := by simpa using List.find?_some found
      rw [if_pos member]
      rfl
  · have absent : devices.reverse.find? ((fun p => decide (p.1 = d)) ∘ fun d => (d, f d)) =
        none := by
      refine List.find?_eq_none.mpr fun other there => ?_
      rintro same
      exact member (of_decide_eq_true same ▸ List.mem_reverse.mp there)
    rw [absent, if_neg member]
    rfl

theorem Notice.names_of_quiet {names : Names} (quiet : notice.sets names = false) :
    notice.names names = names := by
  cases notice with
  | setKeymap => cases quiet
  | initialized option =>
    cases option with
    | none => rfl
    | some keymap => exact if_neg (of_decide_eq_false quiet)
  | _ => rfl

theorem Notice.Done.current (done : notice.Done standard h t) (current : h.self.Current) :
    t.Current := by
  intro d member
  rw [latest_of_applied done.applied d]
  by_cases given : d ∈ t.keyboards.filter fun d => notice.sets h.self.names ∨ d ∉ h.self.keyboards
  · rw [if_pos given]
    exact ⟨_, rfl, rfl⟩
  · rw [if_neg given]
    have kept : notice.sets h.self.names = false ∧ d ∈ h.self.keyboards := by
      simpa [member] using given
    obtain ⟨latest, here, names⟩ := current d kept.2
    exact ⟨latest, here, names.trans (done.names.trans (Notice.names_of_quiet kept.1)).symm⟩

theorem known_of_run {notices : List (Notice M)} {first : Hub M}
    (run : Steps (Notice.Happens standard) notices first h) (known : first.Known)
    (current : first.self.Current) : h.Known ∧ h.self.Current ∧
      h.self.names = notices.foldl (fun names notice => notice.names names) first.self.names := by
  induction run with
  | nil => exact ⟨known, current, rfl⟩
  | @cons notice rest h next last happens _ ih =>
    obtain ⟨allowed, self, act, rfl⟩ := happens
    obtain ⟨t, same, done, kept⟩ := known.act standard allowed
    obtain rfl : self = t := (act.symm.trans same |> Outcome.returned.inj).2
    have there : (notice.told h self).self = self := by cases notice <;> rfl
    have := ih kept (by rw [there]; exact done.current current)
    rwa [there, done.names] at this

/-- Over every run of calls, of the hub's notices and of devices that change their answers: the
keyboards are, each once, the devices present that were keyboards when the hub last told of them,
and the last keymap that each of them was given has the names in force, the first three pieces of
the string last set. Every notice that is allowed is carried out, and gives their keymap to exactly
the keyboards that are new or whose names are set. The removal of a device that has become a
keyboard untold, and no other, erases past the end. -/
theorem keyboards_follow_the_hub {keymap : List Char} {notices : List (Notice M)}
    (run : Steps (Notice.Happens standard) notices (.start keymap) h) :
    h.self.keyboards.Nodup ∧ (∀ d, d ∈ h.self.keyboards ↔ d ∈ h.present ∧ h.announced d) ∧
    (∀ d ∈ h.self.keyboards,
      ∃ latest, h.self.latest d = some latest ∧ latest.names = h.self.names) ∧
    h.self.names =
      notices.foldl (fun names notice => notice.names names) (Notice.names.pieces keymap) ∧
    (∀ notice : Notice M, notice.Allowed h →
      ∃ t, notice.act standard h.self = .returned () t ∧ notice.Done standard h t) ∧
    ∀ d ∈ h.present, (Notice.deviceRemoved d).act standard h.self = .thrown .pastTheEnd h.self ↔
      (h.self.devices d).keyboard ∧ h.announced d = false := by
  obtain ⟨known, current, names⟩ := known_of_run run
    ⟨List.nodup_nil, fun d => by simp [Hub.start, Self.ofKeymap]⟩ fun d member => nomatch member
  refine ⟨known.single, known.listed, current,
    names.trans (congrArg (List.foldl _ · notices) parse_eq), ?_, ?_⟩
  · intro notice allowed
    obtain ⟨t, act, done, -⟩ := known.act standard allowed
    exact ⟨t, act, done⟩
  · intro d present
    have listed : d ∈ h.self.keyboards ↔ h.announced d = true := by
      rw [known.listed]
      simp [present]
    rw [Notice.act, deviceRemoved_run]
    by_cases keyboard : (h.self.devices d).keyboard = true
    · by_cases member : d ∈ h.self.keyboards
      · have told := listed.mp member
        simp [keyboard, member, told, eraseKeyboard, update_run]
      · have untold : h.announced d = false := by simpa [member] using listed
        simp [keyboard, member, untold]
    · simp [keyboard]

/-- Without a keymap the option names one; a keyboard and a mouse come, and another is chosen. -/
def pluggedIn : List (Notice Unit) :=
  [.initialized (some ['g', 'b']), .answers 1 ⟨true, none⟩, .deviceAdded 1, .deviceAdded 2,
    .setKeymap ['c', 'z', '+', 'q'], .answers 2 ⟨true, none⟩, .deviceChanged 2, .deviceRemoved 1]

theorem keyboards_follow_the_hub_pluggedIn : ∃ h : Hub Unit,
    Steps (Notice.Happens ⟨(), [], [], []⟩) pluggedIn (.start []) h ∧ h.self.keyboards = [2] ∧
      ∃ latest, h.self.latest 2 = some latest ∧ latest.names = ⟨['c', 'z'], ['q'], []⟩ := by
  have run : ∃ h : Hub Unit, Steps (Notice.Happens ⟨(), [], [], []⟩) pluggedIn (.start []) h ∧
      h.self.keyboards = [2] ∧ h.self.names = ⟨['c', 'z'], ['q'], []⟩ := by
    refine ⟨_, .cons ⟨fun _ => rfl, _, rfl, rfl⟩ <| .cons ⟨trivial, _, rfl, rfl⟩ <|
      .cons ⟨?_, _, rfl, rfl⟩ <| .cons ⟨?_, _, rfl, rfl⟩ <| .cons ⟨trivial, _, rfl, rfl⟩ <|
      .cons ⟨trivial, _, rfl, rfl⟩ <| .cons ⟨?_, _, rfl, rfl⟩ <| .cons ⟨?_, _, rfl, rfl⟩ <|
      .nil _, rfl, rfl⟩
    · exact List.not_mem_nil
    · change 2 ∉ [1]
      decide
    · change 2 ∈ [2, 1]
      decide
    · change 1 ∈ [2, 1] ∧ true = true
      decide
  obtain ⟨h, run, keyboards, names⟩ := run
  obtain ⟨latest, here, same⟩ := (keyboards_follow_the_hub run).2.2.1 2 (by simp [keyboards])
  exact ⟨h, run, keyboards, latest, here, same.trans names⟩

end Runs

end Miral.Keymap
