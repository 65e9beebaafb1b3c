import Miral.Reachability

/-! What the checks of a client's request say, and what it takes to apply the request. The
checks are stricter than the model where the type changes, and more lenient where a parent
or a placement is asked for. -/
namespace Miral

open Program Prog Model

variable {s : Model} {w : Window} {info : WindowInfo} {modifications : WindowSpecification}
  {original target : WindowType} {fuel : Nat}

theorem checkTypeChange_changed (changes : target ≠ original) (known : original ≠ .types) :
    checkTypeChange original target = .error (.runtimeError "Invalid surface type change") := by
  cases original <;> cases target <;> first | rfl | contradiction

theorem checkTypeChange_ok (accepted : checkTypeChange original target = .ok ())
    (known : original ≠ .types) : target = original := by
  by_contra changes
  rw [checkTypeChange_changed changes known] at accepted
  contradiction

theorem WindowType.known_of_canMorphTo (morphs : original.canMorphTo target) :
    original ≠ .types := by
  rintro rfl
  cases target <;> contradiction

/-- A change of type that the model supports: `can_morph_to` holds, and the parent of the
window is what the new type asks for. -/
structure SupportedChange (s : Model) (w : Window) (info : WindowInfo) (type : WindowType) :
    Prop where
  here : s.info? w = some info
  changes : type ≠ info.type
  morphs : info.type.canMorphTo type
  orphan : type.mustNotHaveParent → s.lock info.parent = none
  child : type.mustHaveParent → (s.lock info.parent).isSome

/-- The two requests of a client that set a type and nothing else. -/
inductive Op.ChangesType (w : Window) (type : WindowType) : Op → Prop where
  | modify : ChangesType w type (.modifySurface w { type := some type })
  | attrib : ChangesType w type (.setSurfaceAttribute w (.type type))

/-- The operation changes the type of one window and no other record or link. -/
def Op.Morphs (op : Op) (s : Model) (w : Window) (type : WindowType) : Prop :=
  ∃ fuel t, op.run fuel s = .returned () t ∧ t.typeOf w = some type ∧
    (∀ v, v ≠ w → t.info? v = s.info? v) ∧
    ∀ v, t.parentOf v = s.parentOf v ∧ t.childrenOf v = s.childrenOf v

theorem handleRequest_invalid {failure : Failure} (here : s.info? w = some info)
    (invalid : s.validateModificationRequest modifications info = .error failure) :
    handleRequest fuel w modifications s = .thrown failure s := by
  have looked : infoFor w s = .returned info s := by
    simp [infoFor, bind_run, state, here, pure_run]
  simp only [handleRequest, bind_run, looked, state, invalid, Prog.ofExcept, fail]

theorem validate_changed {type : WindowType} (asks : modifications.type = some type)
    (changes : type ≠ info.type) (known : info.type ≠ .types) :
    s.validateModificationRequest modifications info =
      .error (.runtimeError "Invalid surface type change") := by
  rw [validateModificationRequest, asks, checkSome, checkTypeChange_changed changes known]
  rfl

theorem SupportedChange.thrown {type : WindowType} {op : Op}
    (supported : SupportedChange s w info type) (requests : op.ChangesType w type) :
    op.run fuel s = .thrown (.runtimeError "Invalid surface type change") s.swept := by
  have known := WindowType.known_of_canMorphTo supported.morphs
  have rejected (modifications : WindowSpecification) (asks : modifications.type = some type) :
      Op.locked (handleRequest fuel w modifications) s =
        .thrown (.runtimeError "Invalid surface type change") s.swept :=
    handleRequest_invalid (s := s.swept) supported.here
      (validate_changed asks supported.changes known)
  cases requests with
  | modify => exact rejected _ rfl
  | attrib => exact rejected _ rfl

theorem SupportedChange.not_morphs {type : WindowType} {op : Op}
    (supported : SupportedChange s w info type) (requests : op.ChangesType w type) :
    ¬op.Morphs s w type := by
  rintro ⟨fuel, t, returned, -⟩
  rw [supported.thrown requests] at returned
  contradiction

theorem supportedChange_dialog : ∀ info, dialogState.info? ⟨1, 1⟩ = some info →
    SupportedChange dialogState ⟨1, 1⟩ info .utility := by
  intro info here
  have record : (dialogState.info? ⟨1, 1⟩).map (fun info => (info.type, info.parent)) =
      some (.normal, none) := by decide +kernel
  rw [here] at record
  simp only [Option.map_some, Option.some.injEq, Prod.mk.injEq] at record
  obtain ⟨type, parent⟩ := record
  refine ⟨here, ?_, ?_, ?_, ?_⟩
  · simp [type]
  · simp [type, WindowType.canMorphTo]
  · simp [parent, lock]
  · simp [WindowType.mustHaveParent]

/-- A client can change the type of a window in no way the model supports. -/
theorem supported_changes_rejected {type : WindowType} {op : Op}
    (supported : SupportedChange s w info type) (requests : op.ChangesType w type) :
    (∀ fuel, op.run fuel s =
      .thrown (.runtimeError "Invalid surface type change") s.swept) ∧ ¬op.Morphs s w type :=
  ⟨fun _ => supported.thrown requests, supported.not_morphs requests⟩

theorem supported_changes_rejected_dialog :
    ¬(Op.modifySurface ⟨1, 1⟩ { type := some .utility }).Morphs dialogState ⟨1, 1⟩ .utility := by
  obtain ⟨info, here⟩ : ∃ info, dialogState.info? ⟨1, 1⟩ = some info :=
    Option.isSome_iff_exists.mp (by decide +kernel)
  exact (supported_changes_rejected (supportedChange_dialog info here) .modify).2

/-- A client cannot make a normal window a utility. -/
theorem supported_changes_fail :
    ¬∀ s w info type (op : Op), Reachable (fun s op => op.Contract s) s →
      SupportedChange s w info type → op.ChangesType w type → op.Morphs s w type := by
  intro claim
  obtain ⟨info, here⟩ : ∃ info, dialogState.info? ⟨1, 1⟩ = some info :=
    Option.isSome_iff_exists.mp (by decide +kernel)
  have supported := supportedChange_dialog info here
  have reachable := reachable_dialogState.mono fun _ _ h => h.1
  exact supported.not_morphs .modify (claim _ _ _ _ _ reachable supported .modify)

end Miral
