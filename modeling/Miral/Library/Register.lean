import Mathlib.Algebra.Order.Group.Multiset
import Mathlib.Data.List.Nodup
import Mathlib.Logic.Function.Basic

/-! A register of items with distinct keys, replaced as a whole, and the notices that tell a
listener what the replacement changes. An item that is as good as the one it replaces is
not reported. -/
namespace Register

inductive Notice (α : Type) where
  | create (item : α)
  | update (updated original : α)
  | delete (item : α)
  deriving DecidableEq

variable {κ α β : Type} [DecidableEq κ] (key : α → κ) (same : α → α → Bool)

def lookup (items : List α) (k : κ) : Option α := items.find? (key · = k)

def arrival (old : List α) (item : α) : List (Notice α) :=
  match lookup key old (key item) with
  | none => [.create item]
  | some original => if same item original then [] else [.update item original]

def departure (new : List α) (item : α) : List (Notice α) :=
  match lookup key new (key item) with
  | none => [.delete item]
  | some _ => []

def notices (old new : List α) : List (Notice α) :=
  new.flatMap (arrival key same old) ++ old.flatMap (departure key new)

/-- A listener that keeps a copy of the register: an item may be created only under a free
key, and updated or deleted only under a taken one. -/
def Notice.replay (copy : κ → Option α) : Notice α → Option (κ → Option α)
  | create item =>
    if copy (key item) = none then some (Function.update copy (key item) (some item)) else none
  | update updated _ =>
    if copy (key updated) = none then none
    else some (Function.update copy (key updated) (some updated))
  | delete item =>
    if copy (key item) = none then none else some (Function.update copy (key item) none)

/-- The copy has an item where the register has one, and the two are related. -/
def Tracks (related : α → α → Prop) (copy : κ → Option α) (items : List α) : Prop :=
  ∀ k, Option.Rel related (copy k) (lookup key items k)

section Lookup

variable {key same} {items old new : List α} {item : α} {k : κ}

@[simp] theorem lookup_nil : lookup key [] k = none := rfl

theorem lookup_cons :
    lookup key (item :: items) k = if key item = k then some item else lookup key items k := by
  by_cases eq : key item = k <;> simp [lookup, eq]

theorem key_of_lookup (found : lookup key items k = some item) : key item = k := by
  simpa using List.find?_some found

theorem mem_of_lookup (found : lookup key items k = some item) : item ∈ items :=
  List.mem_of_find?_eq_some found

theorem lookup_eq_none : lookup key items k = none ↔ ∀ item ∈ items, key item ≠ k := by
  simp [lookup]

theorem lookup_eq_some (distinct : (items.map key).Nodup) :
    lookup key items k = some item ↔ item ∈ items ∧ key item = k := by
  constructor
  · exact fun found => ⟨mem_of_lookup found, key_of_lookup found⟩
  · rintro ⟨member, rfl⟩
    cases found : lookup key items (key item) with
    | none => exact absurd rfl (lookup_eq_none.mp found item member)
    | some other =>
      rw [List.inj_on_of_nodup_map distinct (mem_of_lookup found) member (key_of_lookup found)]

end Lookup

section Replay

variable {key same} {old new : List α} {copy : κ → Option α}

/-- Whether nothing is reported of a new item. -/
def silent (key : α → κ) (same : α → α → Bool) (old : List α) (item : α) : Bool :=
  (lookup key old (key item)).any (same item)

def arrived (key : α → κ) (same : α → α → Bool) (old new : List α) (copy : κ → Option α) :
    κ → Option α :=
  fun k =>
    match lookup key new k with
    | some item => if silent key same old item then copy k else some item
    | none => copy k

theorem replay_arrival {item : α}
    (known : copy (key item) = none ↔ lookup key old (key item) = none) :
    (arrival key same old item).foldlM (Notice.replay key) copy =
      some (arrived key same old [item] copy) := by
  have single (copy' : κ → Option α) (here : copy' (key item) = some item)
      (elsewhere : ∀ k, key item ≠ k → copy' k = copy k) (told : silent key same old item = false) :
      copy' = arrived key same old [item] copy := by
    funext k
    by_cases eq : key item = k
    · subst eq
      simp [arrived, lookup_cons, told, here]
    · simp [arrived, lookup_cons, eq, elsewhere k eq]
  unfold arrival
  cases found : lookup key old (key item) with
  | none =>
    have free := known.mpr found
    simp only [List.foldlM_cons, List.foldlM_nil, Notice.replay, free, ↓reduceIte, bind_pure]
    refine congrArg some (single _ ?_ ?_ (by simp [silent, found]))
    · simp
    · exact fun k ne => Function.update_of_ne (Ne.symm ne) _ _
  | some original =>
    dsimp only
    split
    · rename_i alike
      have quiet : silent key same old item := by simp [silent, found, alike]
      refine congrArg some (funext fun k => ?_)
      by_cases eq : key item = k <;> simp [arrived, lookup_cons, eq, quiet]
    · rename_i differs
      have taken : copy (key item) ≠ none := by simp [known, found]
      simp only [List.foldlM_cons, List.foldlM_nil, Notice.replay, taken, ↓reduceIte, bind_pure]
      refine congrArg some (single _ ?_ ?_ (by simpa [silent, found] using differs))
      · simp
      · exact fun k ne => Function.update_of_ne (Ne.symm ne) _ _

theorem replay_arrivals (distinct : (new.map key).Nodup)
    (known : ∀ item ∈ new, copy (key item) = none ↔ lookup key old (key item) = none) :
    (new.flatMap (arrival key same old)).foldlM (Notice.replay key) copy =
      some (arrived key same old new copy) := by
  induction new generalizing copy with
  | nil => rfl
  | cons item rest ih =>
    obtain ⟨fresh, distinct⟩ := List.nodup_cons.mp distinct
    have apart (other : α) (member : other ∈ rest) : key item ≠ key other :=
      fun eq => fresh (eq ▸ List.mem_map_of_mem member)
    rw [List.flatMap_cons, List.foldlM_append, replay_arrival (known item (by simp)),
      Option.bind_eq_bind, Option.bind_some, ih distinct]
    · refine congrArg some (funext fun k => ?_)
      by_cases eq : key item = k
      · have last : lookup key rest k = none :=
          lookup_eq_none.mpr fun other member same => apart other member (eq.trans same.symm)
        simp [arrived, lookup_cons, eq, last]
      · simp [arrived, lookup_cons, eq]
    · intro other member
      simp [arrived, lookup_cons, apart other member, known other (by simp [member])]

def departed (key : α → κ) (old new : List α) (copy : κ → Option α) : κ → Option α :=
  fun k => if (lookup key old k).isSome ∧ lookup key new k = none then none else copy k

theorem departure_gone {item : α} (gone : lookup key new (key item) = none) :
    departure key new item = [.delete item] := by
  rw [departure, gone]

theorem departure_kept {item successor : α}
    (kept : lookup key new (key item) = some successor) : departure key new item = [] := by
  rw [departure, kept]

theorem replay_departures (distinct : (old.map key).Nodup)
    (known : ∀ item ∈ old, lookup key new (key item) = none → copy (key item) ≠ none) :
    (old.flatMap (departure key new)).foldlM (Notice.replay key) copy =
      some (departed key old new copy) := by
  induction old generalizing copy with
  | nil => exact congrArg some (funext fun k => by simp [departed])
  | cons item rest ih =>
    obtain ⟨fresh, distinct⟩ := List.nodup_cons.mp distinct
    have apart (other : α) (member : other ∈ rest) : key other ≠ key item :=
      fun eq => fresh (eq ▸ List.mem_map_of_mem member)
    rw [List.flatMap_cons, List.foldlM_append]
    cases found : lookup key new (key item) with
    | none =>
      have taken := known item (by simp) found
      rw [departure_gone found]
      simp only [List.foldlM_cons, List.foldlM_nil, Notice.replay, taken, ↓reduceIte, bind_pure,
        Option.bind_eq_bind, Option.bind_some]
      rw [ih distinct]
      · refine congrArg some (funext fun k => ?_)
        by_cases eq : key item = k
        · subst eq
          simp [departed, lookup_cons, found]
        · simp [departed, lookup_cons, eq, Function.update_of_ne (Ne.symm eq)]
      · intro other member gone
        rw [Function.update_of_ne (apart other member)]
        exact known other (by simp [member]) gone
    | some successor =>
      rw [departure_kept found]
      simp only [List.foldlM_nil, Option.pure_def, Option.bind_eq_bind, Option.bind_some]
      rw [ih distinct fun other member => known other (by simp [member])]
      refine congrArg some (funext fun k => ?_)
      by_cases eq : key item = k
      · subst eq
        simp [departed, found]
      · simp [departed, lookup_cons, eq]

theorem tracks_iff {related : α → α → Prop} {items : List α} (distinct : (items.map key).Nodup) :
    Tracks key related copy items ↔
      (∀ k, (copy k).isSome ↔ ∃ item ∈ items, key item = k) ∧
        ∀ item ∈ items, ∀ mine, copy (key item) = some mine → related mine item := by
  constructor
  · intro tracks
    constructor
    · intro k
      have close := tracks k
      rw [Option.isSome_iff_exists]
      constructor
      · rintro ⟨mine, held⟩
        cases filed : lookup key items k with
        | none => simp [held, filed] at close
        | some item => exact ⟨item, mem_of_lookup filed, key_of_lookup filed⟩
      · rintro ⟨item, member, rfl⟩
        rw [(lookup_eq_some distinct).mpr ⟨member, rfl⟩] at close
        cases held : copy (key item) with
        | none => simp [held] at close
        | some mine => exact ⟨mine, rfl⟩
    · intro item member mine held
      have close := tracks (key item)
      rw [(lookup_eq_some distinct).mpr ⟨member, rfl⟩, held] at close
      simpa using close
  · rintro ⟨listed, alike⟩ k
    cases filed : lookup key items k with
    | none =>
      have absent : ¬(copy k).isSome := by
        rw [listed]
        rintro ⟨item, member, eq⟩
        exact lookup_eq_none.mp filed item member eq
      simp only [Option.not_isSome_iff_eq_none] at absent
      simp [absent]
    | some item =>
      obtain rfl := key_of_lookup filed
      have member := mem_of_lookup filed
      obtain ⟨mine, held⟩ := Option.isSome_iff_exists.mp ((listed _).mpr ⟨item, member, rfl⟩)
      simpa [held] using alike item member mine held

/-- A listener whose copy tracks the old items can replay the notices, and then tracks the
new ones. -/
theorem Tracks.replay {related : α → α → Prop} (tracks : Tracks key related copy old)
    (refl : ∀ a, related a a) (trans : ∀ {a b c}, related a b → related b c → related a c)
    (alike : ∀ {a b}, same a b → related b a) (distinctOld : (old.map key).Nodup)
    (distinctNew : (new.map key).Nodup) :
    ∃ copy', (notices key same old new).foldlM (Notice.replay key) copy = some copy' ∧
      Tracks key related copy' new := by
  have known (k : κ) : copy k = none ↔ lookup key old k = none := by
    have close := tracks k
    cases held : copy k <;> cases filed : lookup key old k <;> simp_all
  refine ⟨departed key old new (arrived key same old new copy), ?_, ?_⟩
  · rw [notices, List.foldlM_append, replay_arrivals distinctNew fun item _ => known (key item),
      Option.bind_eq_bind, Option.bind_some, replay_departures distinctOld]
    intro item member gone
    simp only [arrived, gone]
    rw [Ne, known]
    exact fun absent => lookup_eq_none.mp absent item member rfl
  · intro k
    cases here : lookup key new k with
    | none =>
      cases before : lookup key old k with
      | none => simp [departed, arrived, here, before, (known k).mpr before]
      | some original => simp [departed, here, before]
    | some item =>
      obtain rfl := key_of_lookup here
      simp only [departed, arrived, here, reduceCtorEq, and_false, ↓reduceIte]
      split
      · rename_i quiet
        cases before : lookup key old (key item) with
        | none => simp [silent, before] at quiet
        | some original =>
          have close := tracks (key item)
          rw [before] at close
          cases held : copy (key item) with
          | none => simp [held] at close
          | some mine =>
            simp only [held, Option.rel_some_some] at close ⊢
            exact trans close (alike (by simpa [silent, before] using quiet))
      · exact .some (refl item)

end Replay

section Tally

variable (f : α → β)

/-- A listener that keeps no more than a value of each item, as a multiset: a value that is
not there is not removed. -/
def Notice.tally [DecidableEq β] (values : Multiset β) : Notice α → Multiset β
  | create item => f item ::ₘ values
  | update updated original => f updated ::ₘ values.erase (f original)
  | delete item => values.erase (f item)

def Notice.added : Notice α → Multiset β
  | create item => {f item}
  | update updated _ => {f updated}
  | delete _ => 0

def Notice.removed : Notice α → Multiset β
  | create _ => 0
  | update _ original => {f original}
  | delete item => {f item}

variable {f} {notice : Notice α} {told : List (Notice α)} {values : Multiset β}

theorem Notice.tally_eq [DecidableEq β] :
    notice.tally f (values + notice.removed f) = values + notice.added f := by
  cases notice with
  | create item => simp [tally, removed, added, Multiset.add_comm values, Multiset.singleton_add]
  | update updated original =>
    simp [tally, removed, added, Multiset.add_comm values, Multiset.singleton_add]
  | delete item => simp [tally, removed, added, Multiset.add_comm values, Multiset.singleton_add]

theorem tally_notices [DecidableEq β] :
    told.foldl (Notice.tally f) (values + (told.map (Notice.removed f)).sum) =
      values + (told.map (Notice.added f)).sum := by
  induction told generalizing values with
  | nil => simp
  | cons notice rest ih =>
    rw [List.map_cons, List.sum_cons, List.map_cons, List.sum_cons, List.foldl_cons,
      add_comm (notice.removed f), ← add_assoc, Notice.tally_eq, add_right_comm, ih, add_assoc]

section Balance

variable {key same} {old new : List α}

/-- The old items that have a successor among `items`, in the order of the successors. -/
def originals (key : α → κ) (old items : List α) : List α :=
  items.filterMap fun item => lookup key old (key item)

theorem originals_keys (items : List α) : (originals key old items).map key =
    (items.filter fun item => (lookup key old (key item)).isSome).map key := by
  induction items with
  | nil => rfl
  | cons item rest ih =>
    cases found : lookup key old (key item) with
    | none => simpa [originals, found] using ih
    | some original => simpa [originals, found, key_of_lookup found] using ih

theorem originals_perm (distinctOld : (old.map key).Nodup) (distinctNew : (new.map key).Nodup) :
    (originals key old new).Perm (old.filter fun item => (lookup key new (key item)).isSome) := by
  rw [List.perm_ext_iff_of_nodup]
  · intro item
    simp only [originals, List.mem_filterMap, List.mem_filter, Option.isSome_iff_exists]
    constructor
    · rintro ⟨successor, member, found⟩
      have eq := key_of_lookup found
      exact ⟨mem_of_lookup found, successor, (lookup_eq_some distinctNew).mpr ⟨member, eq.symm⟩⟩
    · rintro ⟨member, successor, found⟩
      have eq := key_of_lookup found
      exact ⟨successor, mem_of_lookup found,
        (lookup_eq_some distinctOld).mpr ⟨member, eq.symm⟩⟩
  · apply List.Nodup.of_map key
    rw [originals_keys]
    exact distinctNew.sublist (List.filter_sublist.map key)
  · exact (distinctOld.of_map key).filter _

variable (key same f old) in
theorem sum_arrivals (items : List α) :
    ((items.flatMap (arrival key same old)).map (Notice.removed f)).sum =
        ((originals key old (items.filter fun item => !silent key same old item)).map f :
          Multiset β) ∧
      ((items.flatMap (arrival key same old)).map (Notice.added f)).sum =
        ((items.filter fun item => !silent key same old item).map f : Multiset β) := by
  induction items with
  | nil => exact ⟨rfl, rfl⟩
  | cons item rest ih =>
    obtain ⟨removed, added⟩ := ih
    cases found : lookup key old (key item) with
    | none =>
      simp [arrival, silent, found, Notice.removed, Notice.added, removed, added, originals]
    | some original =>
      by_cases alike : same item original
      · simp [arrival, silent, found, alike, removed, added]
      · simp [arrival, silent, found, alike, Notice.removed, Notice.added, removed, added,
          originals]

variable (key f new) in
theorem sum_departures (items : List α) :
    ((items.flatMap (departure key new)).map (Notice.removed f)).sum =
        ((items.filter fun item => !(lookup key new (key item)).isSome).map f : Multiset β) ∧
      ((items.flatMap (departure key new)).map (Notice.added f)).sum = 0 := by
  induction items with
  | nil => exact ⟨rfl, rfl⟩
  | cons item rest ih =>
    obtain ⟨removed, added⟩ := ih
    cases found : lookup key new (key item) with
    | none => simp [departure, found, Notice.removed, Notice.added, removed, added]
    | some successor => simp [departure, found, removed, added]

/-- A listener that keeps the values of the old items is left with those of the new ones,
but for the items that are not reported: it has kept the values they had before. -/
theorem tally_replaced [DecidableEq β] (distinctOld : (old.map key).Nodup)
    (distinctNew : (new.map key).Nodup) :
    (notices key same old new).foldl (Notice.tally f) (old.map f : Multiset β) =
      ((originals key old (new.filter (silent key same old))).map f : Multiset β) +
      ((new.filter fun item => !silent key same old item).map f : Multiset β) := by
  obtain ⟨arrivedRemoved, arrivedAdded⟩ := sum_arrivals key same f old new
  obtain ⟨departedRemoved, departedAdded⟩ := sum_departures key f new old
  have split : (old.map f : Multiset β) =
      ((originals key old (new.filter (silent key same old))).map f : Multiset β) +
        ((notices key same old new).map (Notice.removed f)).sum := by
    have told : (originals key old (new.filter (silent key same old)) ++
        originals key old (new.filter fun item => !silent key same old item)).Perm
          (originals key old new) := by
      rw [originals, originals, ← List.filterMap_append]
      exact (List.filter_append_perm (silent key same old) new).filterMap _
    have parts := ((told.trans (originals_perm distinctOld distinctNew)).append_right _).trans
      (List.filter_append_perm (fun item => (lookup key new (key item)).isSome) old)
    rw [notices, List.map_append, List.sum_append, arrivedRemoved, departedRemoved, ← add_assoc,
      Multiset.coe_add, Multiset.coe_add, ← List.map_append, ← List.map_append]
    exact Multiset.coe_eq_coe.mpr (parts.map f).symm
  rw [split, tally_notices]
  simp [notices, arrivedAdded, departedAdded]

/-- It is left with exactly those of the new ones if and only if the items that are not
reported have, between them, the values they had before. -/
theorem tally_replaced_iff [DecidableEq β] (distinctOld : (old.map key).Nodup)
    (distinctNew : (new.map key).Nodup) :
    (notices key same old new).foldl (Notice.tally f) (old.map f : Multiset β) =
        (new.map f : Multiset β) ↔
      ((originals key old (new.filter (silent key same old))).map f : Multiset β) =
        ((new.filter (silent key same old)).map f : Multiset β) := by
  have split : (new.map f : Multiset β) = ((new.filter (silent key same old)).map f : Multiset β) +
      ((new.filter fun item => !silent key same old item).map f : Multiset β) := by
    rw [Multiset.coe_add, ← List.map_append]
    exact Multiset.coe_eq_coe.mpr ((List.filter_append_perm _ new).map f).symm
  rw [tally_replaced distinctOld distinctNew, split]
  exact add_left_inj _

theorem update_mem_notices {updated original : α}
    (told : .update updated original ∈ notices key same old new) : same updated original = false := by
  rw [notices, List.mem_append, List.mem_flatMap, List.mem_flatMap] at told
  rcases told with ⟨item, -, told⟩ | ⟨item, -, told⟩
  · unfold arrival at told
    split at told
    · simp at told
    · split at told
      · simp at told
      · rename_i differs
        simp only [List.mem_singleton, Notice.update.injEq] at told
        rw [told.1, told.2]
        simpa using differs
  · unfold departure at told
    split at told <;> simp at told

end Balance

end Tally

end Register
