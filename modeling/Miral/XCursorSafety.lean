import Miral.XCursorFormat

/-! What the reader of cursor files writes stays in the blocks that it allocates, but for two
numbers of entries: as an `int` they are negative, and the block of the header is too small
for the header itself. -/
namespace Miral.XCursor

open Program Prog ByteFile

/-- The header has a number of entries for which next to no memory is asked for. -/
def Undersized (malloc : Nat → Bool) (file : List UInt8) : Prop :=
  ∃ header version ntoc, HasWords file 0 [magicNumber, header, version, ntoc] ∧
    (ntoc = 0xffffffff ∧ malloc 12 ∨ ntoc = 0xfffffffe ∧ malloc 0)

section

variable {malloc : Nat → Bool} {file : List UInt8} {block n p s : Nat}

def Within {α : Type} (reader : Reader α) (post : α → Prop) : Prop :=
  ∀ s, reader.Ensures s (fun a _ => post a) (fun e _ => e ≠ .overrun) True

theorem Within.bind {α β : Type} {reader : Reader α} {rest : α → Reader β} {post : α → Prop}
    {post' : β → Prop} (first : Within reader post)
    (second : ∀ a, post a → Within (rest a) post') : Within (reader >>= rest) post' :=
  fun s => (first s).bind fun a t done => second a done t

theorem within_pure {α : Type} {post : α → Prop} {a : α} (done : post a) :
    Within (pure a) post := fun _ => done

theorem within_update {f : Nat → Nat} : Within (update f) fun _ => True := fun _ => trivial

theorem within_failIf {c : Prop} [Decidable c] {e : Failure} (other : e ≠ .overrun) :
    Within (failIf c e) fun _ => ¬c := by
  intro s
  rw [ensures_failIf]
  exact ⟨fun _ => other, id⟩

theorem within_store {offset len : Nat} (fits : offset + len ≤ block) :
    Within (store block offset len) fun _ => True := by
  intro s
  rw [store, ensures_failIf]
  exact ⟨fun beyond => absurd fits (Nat.not_le.mpr beyond), fun _ => trivial⟩

theorem within_readUInt : Within (readUInt file) fun _ => True := by
  intro s
  rw [Ensures, readUInt_run]
  cases wordAt file s with
  | none => exact Failure.noConfusion
  | some u => trivial

theorem within_readInto {offset : Nat} (fits : offset + 4 ≤ block) :
    Within (readInto file block offset) fun _ => True :=
  within_readUInt.bind fun _ _ => (within_store fits).bind fun _ _ => within_pure trivial

theorem within_readTocs (fits : 24 + (p + n) * 12 ≤ block) :
    Within (readTocs file block p n) (·.length = n) := by
  induction n generalizing p with
  | zero => exact within_pure rfl
  | succ n ih =>
    refine (within_readInto (by omega)).bind fun type _ => ?_
    refine (within_readInto (by omega)).bind fun subtype _ => ?_
    refine (within_readInto (by omega)).bind fun position _ => ?_
    exact (ih (by omega)).bind fun rest length => within_pure (congrArg (· + 1) length)

theorem within_readPixels (fits : 40 + (p + n) * 4 ≤ block) :
    Within (readPixels file block p n) fun _ => True := by
  induction n generalizing p with
  | zero => exact within_pure trivial
  | succ n ih =>
    refine (within_readInto (by omega)).bind fun pixel _ => ?_
    exact (ih (by omega)).bind fun rest _ => within_pure trivial

theorem within_allocate {size : Int} :
    Within (allocate malloc size) fun block => malloc block ∧ block = (size % 2 ^ 64).toNat :=
  (within_failIf (by decide)).bind fun _ met => within_pure ⟨not_not.mp met, rfl⟩

theorem within_imageCreate {width height : UInt32} :
    Within (imageCreate malloc width height)
      fun block => 40 + (width * height).toNat * 4 ≤ block := by
  refine (within_failIf (by decide)).bind fun _ small => within_allocate.bind fun block given => ?_
  obtain ⟨-, eq⟩ := given
  rw [← Int.natCast_mul] at eq
  have exact : (width * height).toNat = width.toNat * height.toNat := by
    rw [UInt32.toNat_mul]
    omega
  exact (within_store (by omega)).bind fun _ _ => within_pure (by omega)

theorem findImageToc_lt {best : UInt32} {tocs : List FileToc} {toc : Nat}
    (found : findImageToc best tocs n = some toc) : toc < tocs.length := by
  induction tocs generalizing n toc with
  | nil => contradiction
  | cons entry rest ih =>
    rw [findImageToc.eq_def] at found
    simp only at found
    split at found
    · obtain ⟨index, later, rfl⟩ := Option.map_eq_some_iff.mp found
      exact Nat.succ_lt_succ (ih later)
    · cases n with
      | zero =>
        cases found
        exact Nat.succ_pos _
      | succ n =>
        obtain ⟨index, later, rfl⟩ := Option.map_eq_some_iff.mp found
        exact Nat.succ_lt_succ (ih later)

theorem findBestSize_le (h : FileHeader) (size : UInt32) :
    (findBestSize h size).2 ≤ h.tocs.length := by
  rw [findBestSize]
  generalize h.tocs = tocs
  induction tocs using List.reverseRecOn with
  | nil => exact Nat.le_refl 0
  | append_singleton before entry ih =>
    rw [List.foldl_append, List.foldl_cons, List.foldl_nil, List.length_append, considerSize]
    simp only [List.length_singleton]
    split
    · omega
    · split
      · simp only
        omega
      · split
        · simp only
          omega
        · omega

theorem within_readImage {h : FileHeader} {toc : Nat} (listed : toc < h.tocs.length) :
    Within (readImage malloc file h toc) fun _ => True := by
  have entry : Within (tocAt h.tocs toc) fun _ => True := by
    rw [tocAt, List.getElem?_eq_getElem listed]
    exact within_pure trivial
  have chunk : Within (fileReadChunkHeader file h toc) fun _ => True := by
    refine entry.bind fun _ _ => within_update.bind fun _ _ => ?_
    refine within_readUInt.bind fun _ _ => within_readUInt.bind fun _ _ => ?_
    refine within_readUInt.bind fun _ _ => within_readUInt.bind fun _ _ => ?_
    exact (within_failIf (by decide)).bind fun _ _ => within_pure trivial
  refine chunk.bind fun _ _ => within_readUInt.bind fun width _ => ?_
  refine within_readUInt.bind fun height _ => within_readUInt.bind fun _ _ => ?_
  refine within_readUInt.bind fun _ _ => within_readUInt.bind fun _ _ => ?_
  refine (within_failIf (by decide)).bind fun _ _ => (within_failIf (by decide)).bind fun _ _ => ?_
  refine (within_failIf (by decide)).bind fun _ _ => within_imageCreate.bind fun block fits => ?_
  exact (within_readPixels (by omega)).bind fun _ _ => within_pure trivial

theorem within_readImages {h : FileHeader} {best : UInt32} {left : Nat}
    (fits : 24 + (n + left) * 8 ≤ block) :
    Within (readImages malloc file h best block n left) fun _ => True := by
  induction left generalizing n with
  | zero => exact within_pure trivial
  | succ left ih =>
    rw [readImages]
    cases found : findImageToc best h.tocs n with
    | none => exact fun s => Failure.noConfusion
    | some toc =>
      refine (within_readImage (findImageToc_lt found)).bind fun _ _ => ?_
      refine (within_store (by omega)).bind fun _ _ => ?_
      exact (ih (by omega)).bind fun _ _ => within_pure trivial

theorem ensures_readUInt {excuse : Prop} : (readUInt file).Ensures s
    (fun u t => wordAt file s = some u ∧ t = s + 4) (fun e _ => e = .overrun → excuse) True := by
  rw [Ensures, readUInt_run]
  cases found : wordAt file s with
  | none => exact fun same => Failure.noConfusion same
  | some u => exact ⟨rfl, rfl⟩

theorem Within.excused {α : Type} {reader : Reader α} {post : α → Prop} {excuse : Prop}
    (within : Within reader post) :
    reader.Ensures s (fun a _ => post a) (fun e _ => e = .overrun → excuse) True :=
  (within s).mono (fun _ _ done => done) (fun _ _ other same => absurd same other) id

theorem headerBlock_cases (small : n < 2 ^ 32)
    (eq : block = ((24 + (if n < 2 ^ 31 then (n : Int) else n - 2 ^ 32) * 12) % 2 ^ 64).toNat) :
    24 + n * 12 ≤ block ∨ n = 2 ^ 32 - 1 ∧ block = 12 ∨ n = 2 ^ 32 - 2 ∧ block = 0 := by
  by_cases low : n < 2 ^ 31
  · rw [if_pos low, Int.emod_eq_of_lt (by omega) (by omega)] at eq
    omega
  · rw [if_neg low] at eq
    by_cases negative : n < 2 ^ 32 - 2
    · rw [← Int.add_emod_right, Int.emod_eq_of_lt (by omega) (by omega)] at eq
      omega
    · rw [Int.emod_eq_of_lt (by omega) (by omega)] at eq
      omega

/-- The block of the header holds it and its entries, except for two numbers of entries. -/
theorem ensures_fileHeaderCreate {ntoc : UInt32} : (fileHeaderCreate malloc ntoc.toInt32).Ensures s
    (fun block _ => 24 + ntoc.toNat * 12 ≤ block)
    (fun e _ => e = .overrun → ntoc = 0xffffffff ∧ malloc 12 ∨ ntoc = 0xfffffffe ∧ malloc 0)
    True := by
  refine (within_failIf (by decide)).excused.bind fun _ _ _ => ?_
  refine within_allocate.excused.bind fun block _ ⟨met, eq⟩ => ?_
  rw [toInt_toInt32] at eq
  rw [store, ensures_bind, ensures_failIf]
  rcases headerBlock_cases ntoc.toNat_lt eq with fits | ⟨last, rfl⟩ | ⟨last, rfl⟩
  · exact ⟨fun beyond => by omega, fun _ => fits⟩
  · exact ⟨fun _ _ => .inl ⟨UInt32.toNat_inj.mp last, met⟩, fun within => by omega⟩
  · exact ⟨fun _ _ => .inr ⟨UInt32.toNat_inj.mp last, met⟩, fun within => by omega⟩

theorem ensures_readFileHeader : (readFileHeader malloc file).Ensures 0
    (fun h _ => h.tocs.length < 2 ^ 32) (fun e _ => e = .overrun → Undersized malloc file)
    True := by
  refine ensures_readUInt.bind fun magic _ ⟨first, at4⟩ => ?_
  refine (within_failIf (by decide)).excused.traced.bind fun _ t ⟨checked, known⟩ => ?_
  obtain rfl := (failIf_eq_returned.mp checked).2
  subst at4
  rw [not_not] at known
  subst known
  refine ensures_readUInt.bind fun header _ ⟨second, at8⟩ => ?_
  subst at8
  refine ensures_readUInt.bind fun version _ ⟨third, at12⟩ => ?_
  subst at12
  refine ensures_readUInt.bind fun ntoc _ ⟨fourth, at16⟩ => ?_
  have words : HasWords file 0 [magicNumber, header, version, ntoc] := by
    simp only [hasWords_cons, hasWords_nil, and_true]
    exact ⟨first, second, third, fourth⟩
  have small := ntoc.toNat_lt
  refine within_update.excused.bind fun _ _ _ => ?_
  refine (ensures_fileHeaderCreate.mono (fun _ _ fits => fits) ?_ id).bind fun block _ fits => ?_
  · exact fun _ _ sized same => ⟨header, version, ntoc, words, sized same⟩
  · refine (within_readTocs (by omega)).excused.bind fun tocs _ length => ?_
    rw [ensures_pure, length]
    exact small

theorem fileHeaderCreate_overrun {ntoc : UInt32}
    (sized : ntoc = 0xffffffff ∧ malloc 12 ∨ ntoc = 0xfffffffe ∧ malloc 0) :
    fileHeaderCreate malloc ntoc.toInt32 s = .thrown .overrun s := by
  rcases sized with ⟨rfl, met⟩ | ⟨rfl, met⟩
  · have given : allocate malloc (24 + (0xffffffff : UInt32).toInt32.toInt * 12) s =
        .returned 12 s := allocate_returned.mpr ⟨met, by decide, rfl⟩
    rw [fileHeaderCreate, bind_of_returned (a := ()) (failIf_eq_returned.mpr ⟨by decide, rfl⟩),
      bind_of_returned given]
    rfl
  · have given : allocate malloc (24 + (0xfffffffe : UInt32).toInt32.toInt * 12) s =
        .returned 0 s := allocate_returned.mpr ⟨met, by decide, rfl⟩
    rw [fileHeaderCreate, bind_of_returned (a := ()) (failIf_eq_returned.mpr ⟨by decide, rfl⟩),
      bind_of_returned given]
    rfl

theorem ensures_xcFileLoadImages {size : Int32} : (xcFileLoadImages malloc file size).Ensures 0
    (fun _ _ => True) (fun e _ => e = .overrun → 0 ≤ size ∧ Undersized malloc file) True := by
  refine (within_failIf (by decide)).excused.traced.bind fun _ _ ⟨checked, sign⟩ => ?_
  obtain rfl := (failIf_eq_returned.mp checked).2
  refine (ensures_readFileHeader.mono (fun _ _ short => short) ?_ id).bind fun h _ short => ?_
  · exact fun _ _ sized same => ⟨Int32.not_lt.mp sign, sized same⟩
  · refine (within_failIf (by decide)).excused.bind fun _ _ _ => ?_
    refine within_allocate.excused.bind fun block _ ⟨_, eq⟩ => ?_
    have count := findBestSize_le h size.toUInt32
    refine (within_store (by omega)).excused.bind fun _ _ _ => ?_
    exact (within_readImages (by omega)).excused

/-- The reader writes beyond a block exactly if the header has such a number of entries. -/
theorem xcFileLoadImages_overrun {size : Int32} :
    (∃ t, xcFileLoadImages malloc file size 0 = .thrown .overrun t) ↔
      0 ≤ size ∧ Undersized malloc file := by
  constructor
  · rintro ⟨t, thrown⟩
    exact ensures_xcFileLoadImages.thrown thrown rfl
  · rintro ⟨sign, header, version, ntoc, words, sized⟩
    simp only [hasWords_cons, hasWords_nil, and_true] at words
    obtain ⟨first, second, third, fourth⟩ := words
    have thrown : ∃ t, readFileHeader malloc file 0 = .thrown .overrun t := by
      refine ⟨0 + 4 + 4 + 4 + 4 + (header - fileHeaderLen).toNat, ?_⟩
      rw [readFileHeader, bind_of_returned (readUInt_returned.mpr ⟨first, rfl⟩),
        bind_of_returned (a := ()) (failIf_eq_returned.mpr ⟨not_not.mpr rfl, rfl⟩),
        bind_of_returned (readUInt_returned.mpr ⟨second, rfl⟩),
        bind_of_returned (readUInt_returned.mpr ⟨third, rfl⟩),
        bind_of_returned (readUInt_returned.mpr ⟨fourth, rfl⟩)]
      rw [bind_of_returned (update_run ..)]
      exact bind_of_thrown (fileHeaderCreate_overrun sized)
    obtain ⟨t, thrown⟩ := thrown
    refine ⟨t, ?_⟩
    rw [xcFileLoadImages, bind_of_returned (a := ())
      (failIf_eq_returned.mpr ⟨Int32.not_lt.mpr sign, rfl⟩)]
    exact bind_of_thrown thrown

end

end Miral.XCursor
