import Mathlib.Data.List.MinMax
import Mathlib.Data.UInt
import Miral.XCursor

/-! What a cursor file says, by the layout that its headers describe, and that the reader
loads just the images of the nearest size that it lists. -/
namespace Miral.XCursor

open Program Prog ByteFile

def FileToc.words (entry : FileToc) : List UInt32 := [entry.type, entry.subtype, entry.position]

/-- Where the table of contents is. A header that is said to be shorter than it is puts the
table where no file of less than four gigabytes has one. -/
def tocStart (header : UInt32) : Nat := fileHeaderLen.toNat + (header - fileHeaderLen).toNat

/-- The file has a header and then this table of contents. -/
def Lists (file : List UInt8) (toc : List FileToc) : Prop :=
  ∃ header version ntoc, HasWords file 0 [magicNumber, header, version, ntoc] ∧
    ntoc.toNat = toc.length ∧ toc.length ≤ 0x10000 ∧
    HasWords file (tocStart header) (toc.flatMap FileToc.words)

/-- Bounds that the reader checks, and the one that makes the number of pixels an `int`. -/
structure Image.Fits (image : Image) : Prop where
  wide : 0 < image.width.toNat ∧ image.width.toNat < 0x10000
  high : 0 < image.height.toNat ∧ image.height.toNat ≤ 0x10000
  hot : image.xhot.toNat ≤ image.width.toNat ∧ image.yhot.toNat ≤ image.height.toNat
  area : image.width.toNat * image.height.toNat < 2 ^ 31

/-- The words of the chunk of an image, after the one for the length of its header. -/
def Image.words (image : Image) (version : UInt32) : List UInt32 :=
  [imageType, image.size, version, image.width, image.height, image.xhot, image.yhot,
    image.delay] ++ image.pixels

/-- The chunk an entry points to holds this image. -/
def ImageAt (file : List UInt8) (entry : FileToc) (image : Image) : Prop :=
  ∃ header version, HasWords file entry.position.toNat (header :: image.words version) ∧
    image.version = (if version < imageVersion then version else imageVersion) ∧
    image.size = entry.subtype ∧ image.Fits ∧
    image.pixels.length = image.width.toNat * image.height.toNat

def sizes (toc : List FileToc) : List UInt32 :=
  (toc.filter (·.type = imageType)).map FileToc.subtype

def nearest (toc : List FileToc) (size : UInt32) : Option UInt32 :=
  (sizes toc).argmin fun candidate => (dist candidate size).toNat

def ofSize (size : UInt32) (toc : List FileToc) : List FileToc :=
  toc.filter fun entry => entry.type = imageType ∧ entry.subtype = size

/-- The blocks of the table of contents, of the list of images and of the images. -/
def Allocated (malloc : Nat → Bool) (toc : List FileToc) (images : List Image) : Prop :=
  malloc (24 + toc.length * 12) ∧ malloc (24 + images.length * 8) ∧
    ∀ image ∈ images, malloc (40 + image.pixels.length * 4)

section words

variable {malloc : Nat → Bool} {file : List UInt8} {block offset n p s t : Nat} {u : UInt32}

theorem readUInt_run : readUInt file s = match wordAt file s with
    | some u => .returned u (s + 4)
    | none => .thrown .null s := by
  simp only [readUInt, bind_run, Prog.state]
  cases wordAt file s <;> rfl

theorem readUInt_returned :
    readUInt file s = .returned u t ↔ wordAt file s = some u ∧ s + 4 = t := by
  rw [readUInt_run]
  cases wordAt file s <;> simp

theorem readInto_returned : readInto file block offset s = .returned u t ↔
    wordAt file s = some u ∧ offset + 4 ≤ block ∧ s + 4 = t := by
  simp only [readInto, store, bind_eq_returned, readUInt_returned, failIf_eq_returned,
    pure_eq_returned]
  constructor
  · rintro ⟨_, _, ⟨found, rfl⟩, _, _, ⟨fits, rfl⟩, rfl, rfl⟩
    exact ⟨found, Nat.not_lt.mp fits, rfl⟩
  · rintro ⟨found, fits, rfl⟩
    exact ⟨u, _, ⟨found, rfl⟩, (), _, ⟨Nat.not_lt.mpr fits, rfl⟩, rfl, rfl⟩

theorem readPixels_returned {pixels : List UInt32} (fits : 40 + (p + n) * 4 ≤ block) :
    readPixels file block p n s = .returned pixels t ↔
      HasWords file s pixels ∧ pixels.length = n ∧ s + 4 * n = t := by
  induction n generalizing p s pixels with
  | zero =>
    rw [readPixels, pure_eq_returned, List.length_eq_zero_iff]
    constructor
    · rintro ⟨rfl, rfl⟩
      exact ⟨hasWords_nil, rfl, rfl⟩
    · rintro ⟨-, rfl, rfl⟩
      exact ⟨rfl, rfl⟩
  | succ n ih =>
    simp only [readPixels, bind_eq_returned, readInto_returned, pure_eq_returned]
    constructor
    · rintro ⟨pixel, _, ⟨first, -, rfl⟩, rest, _, others, rfl, rfl⟩
      obtain ⟨has, length, rfl⟩ := (ih (by omega)).mp others
      exact ⟨hasWords_cons.mpr ⟨first, has⟩, congrArg (· + 1) length, by omega⟩
    · rintro ⟨has, length, rfl⟩
      cases pixels with
      | nil => contradiction
      | cons pixel rest =>
        obtain ⟨first, has⟩ := hasWords_cons.mp has
        refine ⟨pixel, _, ⟨first, by omega, rfl⟩, rest, _, (ih (by omega)).mpr
          ⟨has, Nat.succ.inj length, by omega⟩, rfl, rfl⟩

theorem readTocs_returned {tocs : List FileToc} (fits : 24 + (p + n) * 12 ≤ block) :
    readTocs file block p n s = .returned tocs t ↔
      HasWords file s (tocs.flatMap FileToc.words) ∧ tocs.length = n ∧ s + 12 * n = t := by
  induction n generalizing p s tocs with
  | zero =>
    rw [readTocs, pure_eq_returned, List.length_eq_zero_iff]
    constructor
    · rintro ⟨rfl, rfl⟩
      exact ⟨hasWords_nil, rfl, rfl⟩
    · rintro ⟨-, rfl, rfl⟩
      exact ⟨rfl, rfl⟩
  | succ n ih =>
    simp only [readTocs, bind_eq_returned, readInto_returned, pure_eq_returned]
    constructor
    · rintro ⟨type, _, ⟨first, -, rfl⟩, subtype, _, ⟨second, -, rfl⟩, position, _,
        ⟨third, -, rfl⟩, rest, _, others, rfl, rfl⟩
      obtain ⟨has, length, rfl⟩ := (ih (by omega)).mp others
      refine ⟨?_, congrArg (· + 1) length, by omega⟩
      simp only [List.flatMap_cons, FileToc.words, List.cons_append, List.nil_append,
        hasWords_cons]
      exact ⟨first, second, third, has⟩
    · rintro ⟨has, length, rfl⟩
      cases tocs with
      | nil => contradiction
      | cons entry rest =>
        simp only [List.flatMap_cons, FileToc.words, List.cons_append, List.nil_append,
          hasWords_cons] at has
        obtain ⟨first, second, third, has⟩ := has
        refine ⟨entry.type, _, ⟨first, by omega, rfl⟩, entry.subtype, _, ⟨second, by omega, rfl⟩,
          entry.position, _, ⟨third, by omega, rfl⟩, rest, _, (ih (by omega)).mpr
          ⟨has, Nat.succ.inj length, by omega⟩, rfl, rfl⟩

theorem allocate_returned {size : Int} : allocate malloc size s = .returned block t ↔
    malloc block ∧ block = (size % 2 ^ 64).toNat ∧ s = t := by
  simp only [allocate, bind_eq_returned, failIf_eq_returned, pure_eq_returned, not_not]
  constructor
  · rintro ⟨_, _, ⟨met, rfl⟩, rfl, rfl⟩
    exact ⟨met, rfl, rfl⟩
  · rintro ⟨met, rfl, rfl⟩
    exact ⟨(), _, ⟨met, rfl⟩, rfl, rfl⟩

end words

section search

variable {tocs : List FileToc} {size best : UInt32} {n : Nat}

theorem findImageToc_bind :
    (findImageToc best tocs n).bind (tocs[·]?) = (ofSize best tocs)[n]? := by
  induction tocs generalizing n with
  | nil => rfl
  | cons entry rest ih =>
    rw [findImageToc.eq_def, ofSize, List.filter_cons]
    simp only
    by_cases skipped : entry.type ≠ imageType ∨ entry.subtype ≠ best
    · rw [if_pos skipped, if_neg (by simpa [-not_and, ← not_and_or] using skipped),
        Option.bind_map]
      exact ih
    · rw [if_neg skipped, if_pos (by simpa [not_or] using skipped)]
      cases n with
      | zero => rfl
      | succ n =>
        rw [Option.bind_map]
        exact ih

theorem findImageToc_eq_some {toc : Nat} :
    findImageToc best tocs n = some toc → tocs[toc]? = (ofSize best tocs)[n]? := by
  intro found
  rw [← findImageToc_bind, found, Option.bind_some]

theorem length_ofSize : (ofSize best tocs).length = (sizes tocs).count best := by
  rw [sizes, List.count, List.countP_map, List.countP_filter, List.countP_eq_length_filter]
  congr 1
  refine List.filter_congr fun entry _ => ?_
  rw [Bool.decide_and, Bool.and_comm]
  rfl

theorem sizes_append {before : List FileToc} {entry : FileToc} :
    sizes (before ++ [entry]) =
      if entry.type = imageType then sizes before ++ [entry.subtype] else sizes before := by
  by_cases image : entry.type = imageType <;> simp [sizes, image]

theorem nearest_append {before : List FileToc} {entry : FileToc} (image : entry.type = imageType) :
    nearest (before ++ [entry]) size = match nearest before size with
      | none => some entry.subtype
      | some best =>
        if dist entry.subtype size < dist best size then some entry.subtype else some best := by
  rw [nearest, sizes_append, if_pos image, List.argmin_concat, ← nearest]
  cases nearest before size with
  | none => rfl
  | some best => simp only [UInt32.lt_iff_toNat_lt]

/-- Where no image has the size that stands for there being none, the search for the best size
is the one for the nearest, and it counts the images. -/
theorem findBestSize_eq (header : FileHeader) (size : UInt32)
    (positive : ∀ entry ∈ header.tocs, entry.type = imageType → entry.subtype ≠ 0) :
    findBestSize header size = match nearest header.tocs size with
      | none => (0, 0)
      | some best => (best, (ofSize best header.tocs).length) := by
  simp only [findBestSize, length_ofSize]
  generalize header.tocs = tocs at positive ⊢
  induction tocs using List.reverseRecOn with
  | nil => rfl
  | append_singleton before entry ih =>
    rw [List.foldl_append, ih fun e member => positive e (List.mem_append_left _ member),
      List.foldl_cons, List.foldl_nil, considerSize, sizes_append]
    by_cases image : entry.type = imageType
    · rw [if_neg (not_not.mpr image), if_pos image, nearest_append image]
      cases found : nearest before size with
      | none =>
        rw [List.argmin_eq_none.mp found]
        simp
      | some best =>
        have member : best ∈ sizes before := List.argmin_mem found
        have nonzero : best ≠ 0 := by
          obtain ⟨e, listed, rfl⟩ := List.mem_map.mp member
          rw [List.mem_filter, decide_eq_true_eq] at listed
          exact positive e (List.mem_append_left _ listed.1) listed.2
        by_cases nearer : dist entry.subtype size < dist best size
        · have fresh : entry.subtype ∉ sizes before := fun old =>
            List.not_lt_of_mem_argmin old found (UInt32.lt_iff_toNat_lt.mp nearer)
          simp [nearer, List.count_eq_zero_of_not_mem fresh]
        · simp only [nonzero, nearer, or_false, if_false, List.count_append,
            List.count_singleton, beq_iff_eq]
          by_cases same : entry.subtype = best
          · simp [same]
          · simp [same]
    · rw [if_pos image, if_neg image]
      have unchanged : nearest (before ++ [entry]) size = nearest before size := by
        rw [nearest, sizes_append, if_neg image, ← nearest]
      rw [unchanged]

end search

section load

variable {malloc : Nat → Bool} {file : List UInt8}
  (huge : ∀ request, 2 ^ 63 ≤ request → malloc request = false)

theorem toInt_toInt32 (u : UInt32) :
    u.toInt32.toInt = if u.toNat < 2 ^ 31 then (u.toNat : Int) else u.toNat - 2 ^ 32 := by
  rw [← Int32.toInt_toBitVec, UInt32.toBitVec_toInt32, BitVec.toInt_eq_toNat_cond,
    UInt32.toNat_toBitVec]
  split <;> split <;> omega

theorem fileHeaderCreate_limit : (0x10000 : Int32).toInt = 0x10000 := rfl

include huge in
theorem fileHeaderCreate_returned {ntoc : UInt32} {block s t : Nat} :
    fileHeaderCreate malloc ntoc.toInt32 s = .returned block t ↔
      ntoc.toNat ≤ 0x10000 ∧ malloc (24 + ntoc.toNat * 12) ∧ block = 24 + ntoc.toNat * 12 ∧
        s = t := by
  have small := ntoc.toNat_lt
  simp only [fileHeaderCreate, store, bind_eq_returned, failIf_eq_returned, allocate_returned,
    pure_eq_returned, gt_iff_lt, Int32.lt_iff_toInt_lt, toInt_toInt32, fileHeaderCreate_limit]
  constructor
  · rintro ⟨_, _, ⟨few, rfl⟩, given, _, ⟨met, eq, rfl⟩, _, _, ⟨fits, rfl⟩, rfl, rfl⟩
    by_cases low : ntoc.toNat < 2 ^ 31
    · rw [if_pos low] at few eq
      obtain rfl : given = 24 + ntoc.toNat * 12 := by omega
      exact ⟨by omega, met, rfl, rfl⟩
    · rw [if_neg low] at few eq
      -- a negative number of entries asks for next to everything there is, or for nearly nothing
      have wrapped : (24 + ((ntoc.toNat : Int) - 2 ^ 32) * 12) / 2 ^ 64 = -1 := by omega
      have refused := huge given (by omega)
      rw [refused] at met
      contradiction
  · rintro ⟨few, met, rfl, rfl⟩
    have low : ntoc.toNat < 2 ^ 31 := by omega
    rw [if_pos low]
    refine ⟨(), s, ⟨by omega, rfl⟩, _, s, ⟨met, by omega, rfl⟩, (), s, ⟨by omega, rfl⟩, rfl, rfl⟩

include huge in
theorem readFileHeader_returned {h : FileHeader} {t : Nat} :
    readFileHeader malloc file 0 = .returned h t ↔
      HasWords file 0 [magicNumber, h.header, h.version, h.ntoc] ∧ h.magic = magicNumber ∧
        h.ntoc.toNat = h.tocs.length ∧ h.tocs.length ≤ 0x10000 ∧
        HasWords file (tocStart h.header) (h.tocs.flatMap FileToc.words) ∧
        malloc (24 + h.tocs.length * 12) ∧ tocStart h.header + 12 * h.tocs.length = t := by
  simp only [readFileHeader, bind_eq_returned, failIf_eq_returned, readUInt_returned,
    fileHeaderCreate_returned huge, pure_eq_returned, not_not, hasWords_cons]
  constructor
  · rintro ⟨magic, _, ⟨first, rfl⟩, _, _, ⟨rfl, rfl⟩, header, _, ⟨second, rfl⟩, version, _,
      ⟨third, rfl⟩, ntoc, _, ⟨fourth, rfl⟩, _, _, skipped, block, _, ⟨few, met, rfl, rfl⟩, tocs, _,
      entries, rfl, rfl⟩
    cases skipped
    obtain ⟨has, length, rfl⟩ := (readTocs_returned (by omega)).mp entries
    rw [← length] at few met ⊢
    exact ⟨⟨first, second, third, fourth, hasWords_nil⟩, rfl, rfl, few, has, met, rfl⟩
  · obtain ⟨magic, header, version, ntoc, tocs⟩ := h
    rintro ⟨⟨first, second, third, fourth, -⟩, rfl, length, few, entries, met, rfl⟩
    simp only at second third fourth length few entries met ⊢
    refine ⟨_, _, ⟨first, rfl⟩, (), _, ⟨rfl, rfl⟩, header, _, ⟨second, rfl⟩, version, _,
      ⟨third, rfl⟩, ntoc, _, ⟨fourth, rfl⟩, (), _, rfl, _, _, ⟨by omega, by rwa [length], rfl, rfl⟩,
      tocs, _, (readTocs_returned (by omega)).mpr ⟨entries, length.symm, ?_⟩, rfl, rfl⟩
    rw [length]
    rfl

theorem imageCreate_returned {width height : UInt32} {block s t : Nat}
    (wide : width.toNat < 0x10000) (high : height.toNat ≤ 0x10000) :
    imageCreate malloc width height s = .returned block t ↔
      width.toNat * height.toNat < 2 ^ 31 ∧ malloc (40 + width.toNat * height.toNat * 4) ∧
        block = 40 + width.toNat * height.toNat * 4 ∧ s = t := by
  simp only [imageCreate, store, bind_eq_returned, failIf_eq_returned, allocate_returned,
    pure_eq_returned, ← Int.natCast_mul]
  have bound : width.toNat * height.toNat ≤ 0x10000 * 0x10000 := Nat.mul_le_mul wide.le high
  generalize width.toNat * height.toNat = area at *
  constructor
  · rintro ⟨_, _, ⟨small, rfl⟩, given, _, ⟨met, eq, rfl⟩, _, _, ⟨-, rfl⟩, rfl, rfl⟩
    obtain rfl : given = 40 + area * 4 := by omega
    exact ⟨by omega, met, rfl, rfl⟩
  · rintro ⟨small, met, rfl, rfl⟩
    exact ⟨(), s, ⟨by omega, rfl⟩, _, s, ⟨met, by omega, rfl⟩, (), s, ⟨by omega, rfl⟩, rfl, rfl⟩

theorem fileReadChunkHeader_returned {h : FileHeader} {toc s t : Nat} {chunk : ChunkHeader} :
    fileReadChunkHeader file h toc s = .returned chunk t ↔ ∃ entry, h.tocs[toc]? = some entry ∧
      HasWords file entry.position.toNat
        [chunk.header, chunk.type, chunk.subtype, chunk.version] ∧
      chunk.type = entry.type ∧ chunk.subtype = entry.subtype ∧
      entry.position.toNat + 16 = t := by
  simp only [fileReadChunkHeader, bind_eq_returned, readUInt_returned, failIf_eq_returned,
    pure_eq_returned, not_or, not_not, tocAt, hasWords_cons]
  constructor
  · rintro ⟨entry, _, found, _, _, sought, header, _, ⟨first, rfl⟩, type, _, ⟨second, rfl⟩,
      subtype, _, ⟨third, rfl⟩, version, _, ⟨fourth, rfl⟩, _, _, ⟨same, rfl⟩, rfl, rfl⟩
    cases sought
    cases listed : h.tocs[toc]? with
    | none =>
      rw [listed] at found
      contradiction
    | some e =>
      rw [listed] at found
      cases found
      exact ⟨entry, rfl, ⟨first, second, third, fourth, hasWords_nil⟩, same.1, same.2, rfl⟩
  · rintro ⟨entry, listed, ⟨first, second, third, fourth, -⟩, type, subtype, rfl⟩
    rw [listed]
    exact ⟨entry, s, rfl, (), _, rfl, _, _, ⟨first, rfl⟩, _, _, ⟨second, rfl⟩, _, _, ⟨third, rfl⟩,
      _, _, ⟨fourth, rfl⟩, (), _, ⟨⟨type, subtype⟩, rfl⟩, rfl, rfl⟩

theorem Image.fits_iff {image : Image} : image.Fits ↔
    (¬image.width ≥ 0x10000 ∧ ¬image.height > 0x10000) ∧ (¬image.width = 0 ∧ ¬image.height = 0) ∧
      (¬image.xhot > image.width ∧ ¬image.yhot > image.height) ∧
      image.width.toNat * image.height.toNat < 2 ^ 31 := by
  simp only [ge_iff_le, gt_iff_lt, UInt32.le_iff_toNat_le, UInt32.lt_iff_toNat_lt,
    ← UInt32.toNat_inj, UInt32.toNat_ofNat, Nat.reduceMod, Nat.reducePow]
  constructor
  · rintro ⟨wide, high, hot, area⟩
    omega
  · rintro ⟨below, above, inside, area⟩
    exact ⟨by omega, by omega, by omega, area⟩

/-- An image is read if the entry points to one. -/
theorem readImage_returned {h : FileHeader} {toc s t : Nat} {entry : FileToc} {image : Image}
    (listed : h.tocs[toc]? = some entry) (type : entry.type = imageType) :
    readImage malloc file h toc s = .returned image t ↔ ImageAt file entry image ∧
      malloc (40 + image.pixels.length * 4) ∧
      entry.position.toNat + 36 + 4 * image.pixels.length = t := by
  simp only [readImage, bind_eq_returned, readUInt_returned, failIf_eq_returned,
    fileReadChunkHeader_returned, pure_eq_returned, ImageAt, Image.words, listed,
    Option.some.injEq, hasWords_cons, List.cons_append, List.nil_append, not_or]
  constructor
  · rintro ⟨chunk, _, ⟨_, rfl, ⟨first, second, third, fourth, -⟩, sameType, sameSize, rfl⟩,
      width, _, ⟨fifth, rfl⟩, height, _, ⟨sixth, rfl⟩, xhot, _, ⟨seventh, rfl⟩,
      yhot, _, ⟨eighth, rfl⟩, delay, _, ⟨ninth, rfl⟩, _, _, ⟨below, rfl⟩, _, _, ⟨above, rfl⟩,
      _, _, ⟨inside, rfl⟩, block, _, created, pixels, _, read, rfl, rfl⟩
    have wide := UInt32.lt_iff_toNat_lt.mp (UInt32.not_le.mp below.1)
    have high := UInt32.le_iff_toNat_le.mp (UInt32.not_lt.mp below.2)
    obtain ⟨area, met, rfl, rfl⟩ := (imageCreate_returned wide high).mp created
    have exact : (width * height).toNat = width.toNat * height.toNat := by
      rw [UInt32.toNat_mul]
      omega
    rw [exact] at read
    obtain ⟨has, length, rfl⟩ := (readPixels_returned (by omega)).mp read
    refine ⟨⟨chunk.header, chunk.version, ⟨first, ?_, ?_, fourth, fifth, sixth, seventh, eighth,
      ninth, has⟩, rfl, sameSize, Image.fits_iff.mpr ⟨below, above, inside, area⟩, length⟩,
      by rwa [length], ?_⟩
    · rw [second, sameType, type]
    · rw [third]
    · rw [← length]
  · obtain ⟨version, size, width, height, xhot, yhot, delay, pixels⟩ := image
    rintro ⟨⟨header, read, ⟨first, second, third, fourth, fifth, sixth, seventh, eighth, ninth,
      has⟩, least, sameSize, fits, length⟩, met, rfl⟩
    have bounds := Image.fits_iff.mp fits
    obtain ⟨below, above, inside, area⟩ := bounds
    simp only at *
    have exact : (width * height).toNat = width.toNat * height.toNat := by
      rw [UInt32.toNat_mul]
      omega
    have room : 40 + (0 + (width * height).toNat) * 4 ≤ 40 + width.toNat * height.toNat * 4 := by
      rw [exact, Nat.zero_add]
    refine ⟨⟨header, imageType, size, read⟩, _, ⟨entry, rfl, ⟨first, second, third, fourth,
      hasWords_nil⟩, type.symm, sameSize, rfl⟩, width, _, ⟨fifth, rfl⟩, height, _, ⟨sixth, rfl⟩,
      xhot, _, ⟨seventh, rfl⟩, yhot, _, ⟨eighth, rfl⟩, delay, _, ⟨ninth, rfl⟩, (), _,
      ⟨below, rfl⟩, (), _, ⟨above, rfl⟩, (), _, ⟨inside, rfl⟩, _, _,
      (imageCreate_returned fits.wide.2 fits.high.2).mpr ⟨area, by rwa [← length], rfl, rfl⟩,
      pixels, _, (readPixels_returned room).mpr ⟨has, by rw [exact, length], rfl⟩, ?_, ?_⟩
    · rw [least]
    · omega

/-- The images that are read are those of the entries of the size. -/
theorem readImages_returned {h : FileHeader} {best : UInt32} {block n left s : Nat}
    {images : List Image} (fits : 24 + (n + left) * 8 ≤ block)
    (total : n + left = (ofSize best h.tocs).length) :
    (∃ t, readImages malloc file h best block n left s = .returned images t) ↔
      List.Forall₂ (ImageAt file) ((ofSize best h.tocs).drop n) images ∧
        ∀ image ∈ images, malloc (40 + image.pixels.length * 4) := by
  induction left generalizing n s images with
  | zero =>
    rw [List.drop_eq_nil_of_le (by omega)]
    simp only [readImages, pure_eq_returned]
    constructor
    · rintro ⟨_, rfl, -⟩
      exact ⟨.nil, by simp⟩
    · rintro ⟨⟨⟩, -⟩
      exact ⟨s, rfl, rfl⟩
  | succ left ih =>
    have within : n < (ofSize best h.tocs).length := by omega
    have here := List.getElem?_eq_getElem within
    rw [List.drop_eq_getElem_cons within]
    generalize (ofSize best h.tocs)[n] = entry at here ⊢
    have type : entry.type = imageType := by
      have listed := List.mem_of_getElem? here
      rw [ofSize, List.mem_filter, decide_eq_true_eq] at listed
      exact listed.2.1
    rw [readImages]
    cases found : findImageToc best h.tocs n with
    | none =>
      rw [← findImageToc_bind, found] at here
      contradiction
    | some toc =>
      have listed := findImageToc_eq_some found
      rw [here] at listed
      simp only [bind_eq_returned, readImage_returned listed type, store, failIf_eq_returned,
        pure_eq_returned]
      constructor
      · rintro ⟨_, image, _, ⟨first, met, rfl⟩, _, _, ⟨-, rfl⟩, rest, _, others, rfl, rfl⟩
        obtain ⟨all, given⟩ := (ih (by omega) (by omega)).mp ⟨_, others⟩
        exact ⟨.cons first all, List.forall_mem_cons.mpr ⟨met, given⟩⟩
      · rintro ⟨all, given⟩
        cases all with
        | cons first all =>
          rw [List.forall_mem_cons] at given
          obtain ⟨t, others⟩ := (ih (by omega) (by omega)).mpr ⟨all, given.2⟩
          exact ⟨t, _, _, ⟨first, given.1, rfl⟩, (), _, ⟨by omega, rfl⟩, _, _, others, rfl, rfl⟩

include huge in
/-- The reader loads images exactly if the file lists them as those of the nearest size, and
memory is given for them. -/
theorem xcFileLoadImages_returned {size : Int32} {images : List Image}
    (positive : ∀ toc, Lists file toc → ∀ entry ∈ toc, entry.type = imageType →
      entry.subtype ≠ 0) :
    (∃ t, xcFileLoadImages malloc file size 0 = .returned images t) ↔
      0 ≤ size ∧ ∃ toc best, Lists file toc ∧ nearest toc size.toUInt32 = some best ∧
        List.Forall₂ (ImageAt file) (ofSize best toc) images ∧ Allocated malloc toc images := by
  simp only [xcFileLoadImages, store, bind_eq_returned, failIf_eq_returned, allocate_returned]
  constructor
  · rintro ⟨_, _, _, ⟨sign, rfl⟩, h, _, read, _, _, ⟨some, rfl⟩, block, _, ⟨given, eq, rfl⟩, _, _,
      ⟨fits, rfl⟩, images⟩
    obtain ⟨words, -, length, few, entries, met, rfl⟩ := (readFileHeader_returned huge).mp read
    have listed : Lists file h.tocs := ⟨h.header, h.version, h.ntoc, words, length, few, entries⟩
    have found := findBestSize_eq h size.toUInt32 (positive _ listed)
    have count : (ofSize (findBestSize h size.toUInt32).1 h.tocs).length ≤ h.tocs.length :=
      List.length_filter_le ..
    cases nearer : nearest h.tocs size.toUInt32 with
    | none =>
      rw [found, nearer] at some
      contradiction
    | some best =>
      rw [nearer] at found
      simp only [found] at eq count images
      obtain ⟨all, each⟩ := (readImages_returned (by omega) (by omega)).mp ⟨_, images⟩
      rw [List.drop_zero] at all
      refine ⟨Int32.not_lt.mp sign, h.tocs, best, listed, nearer, all, met, ?_, each⟩
      rw [← all.length_eq]
      obtain rfl : block = 24 + (ofSize best h.tocs).length * 8 := by omega
      exact given
  · rintro ⟨sign, toc, best, listed, nearer, all, table, list, each⟩
    have chosen : best ≠ 0 := by
      obtain ⟨e, member, rfl⟩ := List.mem_map.mp (List.argmin_mem nearer)
      rw [List.mem_filter, decide_eq_true_eq] at member
      exact positive toc listed e member.1 member.2
    have search := positive toc listed
    obtain ⟨header, version, ntoc, words, length, few, entries⟩ := listed
    obtain ⟨h, eq⟩ : ∃ h : FileHeader, h = ⟨magicNumber, header, version, ntoc, toc⟩ := ⟨_, rfl⟩
    have read : readFileHeader malloc file 0 = .returned h _ :=
      (readFileHeader_returned huge).mpr (by
        rw [eq]
        exact ⟨words, rfl, length, few, entries, table, rfl⟩)
    obtain rfl : toc = h.tocs := by rw [eq]
    have found := findBestSize_eq h size.toUInt32 search
    simp only [nearer] at found
    have count : (ofSize best h.tocs).length ≤ h.tocs.length := List.length_filter_le ..
    obtain ⟨t, images⟩ : ∃ t, readImages malloc file h best
        (24 + (ofSize best h.tocs).length * 8) 0 (ofSize best h.tocs).length _ =
          .returned images t :=
      (readImages_returned (by omega) (Nat.zero_add _)).mpr ⟨by rwa [List.drop_zero], each⟩
    rw [← all.length_eq] at list
    refine ⟨t, (), 0, ⟨Int32.not_lt.mpr sign, rfl⟩, h, _, read, (), _, ⟨by rwa [found], rfl⟩,
      24 + (ofSize best h.tocs).length * 8, _, ⟨list, ?_, rfl⟩, (), _, ⟨by omega, rfl⟩, ?_⟩
    · simp only [found]
      omega
    · rwa [found]

end load

end Miral.XCursor
