import Miral.XCursorFormat

/-! Cursor files that are written in the layout of the headers: a table of contents and the
chunks of the images, one after the other. -/
namespace Miral.XCursor

open Program Prog ByteFile

def fileVersion : UInt32 := 0x10000
def imageHeaderLen : UInt32 := 36

structure Image.WellFormed (image : Image) : Prop where
  version : image.version ≤ imageVersion
  size : image.size ≠ 0
  fits : image.Fits
  length : image.pixels.length = image.width.toNat * image.height.toNat

def Image.chunk (image : Image) : List UInt32 := imageHeaderLen :: image.words image.version

/-- The table of contents of chunks that begin at a place. -/
def entries (start : Nat) : List Image → List FileToc
  | [] => []
  | image :: rest =>
    ⟨imageType, image.size, .ofNat start⟩ :: entries (start + 4 * image.chunk.length) rest

def encode (images : List Image) : List UInt8 :=
  ([magicNumber, fileHeaderLen, fileVersion, .ofNat images.length] ++
    ((entries (16 + 12 * images.length) images).flatMap FileToc.words ++
      images.flatMap Image.chunk)).flatMap bytesOf

section

variable {file : List UInt8} {toc toc' : List FileToc} {images : List Image} {start : Nat}

theorem length_flatMap_words : (toc.flatMap FileToc.words).length = 3 * toc.length := by
  induction toc with
  | nil => rfl
  | cons entry rest ih =>
    rw [List.flatMap_cons, List.length_append, ih, List.length_cons, FileToc.words]
    simp only [List.length_cons, List.length_nil]
    omega

theorem flatMap_words_inj (same : toc.flatMap FileToc.words = toc'.flatMap FileToc.words) :
    toc = toc' := by
  induction toc generalizing toc' with
  | nil =>
    cases toc' with
    | nil => rfl
    | cons => contradiction
  | cons entry rest ih =>
    cases toc' with
    | nil => contradiction
    | cons entry' rest' =>
      simp only [List.flatMap_cons, FileToc.words, List.cons_append, List.nil_append,
        List.cons.injEq] at same
      obtain ⟨type, subtype, position, others⟩ := same
      rw [ih others]
      cases entry
      cases entry'
      simp_all

theorem Lists.unique (first : Lists file toc) (second : Lists file toc') : toc = toc' := by
  obtain ⟨header, version, ntoc, words, length, -, has⟩ := first
  obtain ⟨header', version', ntoc', words', length', -, has'⟩ := second
  obtain ⟨rfl, rfl, rfl⟩ := by simpa using words.unique words' rfl
  refine flatMap_words_inj (has.unique has' ?_)
  rw [length_flatMap_words, length_flatMap_words, ← length, ← length']

@[simp] theorem length_entries : (entries start images).length = images.length := by
  induction images generalizing start with
  | nil => rfl
  | cons image rest ih => rw [entries, List.length_cons, ih, List.length_cons]

theorem sizes_entries (start : Nat) (images : List Image) :
    sizes (entries start images) = images.map Image.size := by
  induction images generalizing start with
  | nil => rfl
  | cons image rest ih =>
    rw [List.map_cons, ← ih (start + 4 * image.chunk.length)]
    simp [entries, sizes]

theorem positive_entries (wellFormed : ∀ image ∈ images, image.WellFormed) :
    ∀ entry ∈ entries start images, entry.subtype ≠ 0 := by
  induction images generalizing start with
  | nil => simp [entries]
  | cons image rest ih =>
    rw [List.forall_mem_cons] at wellFormed
    rw [entries, List.forall_mem_cons]
    exact ⟨wellFormed.1.size, ih wellFormed.2⟩

/-- Every entry points to the chunk of its image. -/
theorem imageAt_entries {best : UInt32} (wellFormed : ∀ image ∈ images, image.WellFormed)
    (has : HasWords file start (images.flatMap Image.chunk))
    (short : start + 4 * (images.flatMap Image.chunk).length < 2 ^ 32) :
    List.Forall₂ (ImageAt file) (ofSize best (entries start images))
      (images.filter (·.size = best)) := by
  induction images generalizing start with
  | nil => exact .nil
  | cons image rest ih =>
    rw [List.forall_mem_cons] at wellFormed
    obtain ⟨good, others⟩ := wellFormed
    rw [List.flatMap_cons, List.length_append] at short
    rw [List.flatMap_cons, hasWords_append] at has
    have later := ih others has.2 (by omega)
    rw [entries, ofSize, List.filter_cons, List.filter_cons, ← ofSize]
    by_cases wanted : image.size = best
    · rw [if_pos (by simpa using wanted), if_pos (by simpa using wanted)]
      refine .cons ⟨imageHeaderLen, image.version, ?_, ?_, rfl, good.fits, good.length⟩ later
      · have place : (UInt32.ofNat start).toNat = start := by
          rw [UInt32.toNat_ofNat']
          omega
        rw [place]
        exact has.1
      · split
        · rfl
        · exact UInt32.le_antisymm good.version (UInt32.not_lt.mp ‹_›)
    · rw [if_neg (by simpa using wanted), if_neg (by simpa using wanted)]
      exact later

theorem lists_encode (images : List Image) (few : images.length ≤ 0x10000) :
    Lists (encode images) (entries (16 + 12 * images.length) images) ∧
      HasWords (encode images) (16 + 12 * images.length) (images.flatMap Image.chunk) := by
  have whole : HasWords (encode images) 0 _ := List.prefix_rfl
  rw [hasWords_append, hasWords_append, length_flatMap_words, length_entries] at whole
  obtain ⟨words, has, chunks⟩ := whole
  constructor
  · refine ⟨_, _, _, words, ?_, by rwa [length_entries], has⟩
    rw [length_entries, UInt32.toNat_ofNat']
    omega
  · simpa only [List.length_cons, List.length_nil, Nat.zero_add, ← Nat.mul_assoc] using chunks

theorem length_encode :
    (encode images).length =
      16 + 12 * images.length + 4 * (images.flatMap Image.chunk).length := by
  rw [encode, length_flatMap_bytesOf, List.length_append, List.length_append,
    length_flatMap_words, length_entries]
  simp only [List.length_cons, List.length_nil]
  omega

theorem positive_encode (wellFormed : ∀ image ∈ images, image.WellFormed)
    (few : images.length ≤ 0x10000) : ∀ toc, Lists (encode images) toc → ∀ entry ∈ toc,
      entry.type = imageType → entry.subtype ≠ 0 := by
  intro toc other entry member _
  rw [other.unique (lists_encode images few).1] at member
  exact positive_entries wellFormed entry member

theorem allocated_encode {malloc : Nat → Bool} {best : UInt32}
    (wellFormed : ∀ image ∈ images, image.WellFormed) (few : images.length ≤ 0x10000)
    (ample : ∀ request < 2 ^ 34, malloc request) :
    Allocated malloc (entries (16 + 12 * images.length) images)
      (images.filter (·.size = best)) := by
  have fewer : (images.filter (·.size = best)).length ≤ images.length := List.length_filter_le ..
  refine ⟨ample _ ?_, ample _ (by omega), fun image member => ample _ ?_⟩
  · rw [length_entries]
    omega
  · have good := wellFormed image (List.mem_of_mem_filter member)
    have area := good.fits.area
    rw [good.length]
    omega

/-- Images that are written and loaded again are those of the nearest size. -/
theorem xcFileLoadImages_encode {malloc : Nat → Bool} {size : Int32}
    (wellFormed : ∀ image ∈ images, image.WellFormed) (few : images.length ≤ 0x10000)
    (short : (encode images).length < 2 ^ 32) (sign : 0 ≤ size)
    (ample : ∀ request < 2 ^ 34, malloc request)
    (huge : ∀ request, 2 ^ 63 ≤ request → malloc request = false) :
    (xcFileLoadImages malloc (encode images) size 0).value? =
      ((images.map Image.size).argmin fun candidate => (dist candidate size.toUInt32).toNat).map
        fun best => images.filter (·.size = best) := by
  obtain ⟨listed, chunks⟩ := lists_encode images few
  have loads := @xcFileLoadImages_returned malloc (encode images) huge size
  rw [← sizes_entries (16 + 12 * images.length), ← nearest]
  cases nearer : nearest (entries (16 + 12 * images.length) images) size.toUInt32 with
  | none =>
    refine Option.eq_none_iff_forall_ne_some.mpr fun loaded returned => ?_
    obtain ⟨-, toc, best, other, found, -⟩ :=
      (loads (positive_encode wellFormed few)).mp (Outcome.value?_eq_some.mp returned)
    rw [other.unique listed, nearer] at found
    contradiction
  | some best =>
    rw [length_encode] at short
    exact Outcome.value?_eq_some.mpr ((loads (positive_encode wellFormed few)).mpr
      ⟨sign, _, best, listed, nearer, imageAt_entries wellFormed chunks short,
        allocated_encode wellFormed few ample⟩)

def dots : List Image := [⟨1, 24, 1, 1, 0, 0, 0, [0xff000000]⟩, ⟨1, 48, 1, 1, 1, 1, 0, [7]⟩]

theorem wellFormed_dots : ∀ image ∈ dots, image.WellFormed := by
  simp only [dots, List.forall_mem_cons, List.not_mem_nil, false_implies, implies_true, and_true]
  exact ⟨⟨by decide, by decide, ⟨by decide, by decide, by decide, by decide⟩, rfl⟩,
    ⟨by decide, by decide, ⟨by decide, by decide, by decide, by decide⟩, rfl⟩⟩

theorem xcFileLoadImages_encode_dots :
    (xcFileLoadImages (· < 2 ^ 63) (encode dots) 24 0).value? =
      ((dots.map Image.size).argmin fun candidate => (dist candidate 24).toNat).map
        fun best => dots.filter (·.size = best) :=
  xcFileLoadImages_encode wellFormed_dots (by decide) (by decide) (by decide)
    (fun request small => decide_eq_true (by omega))
    fun request large => decide_eq_false (by omega)

/-- Images are loaded exactly if the file has a table of contents, they are those it lists for
the size nearest to the one that is wanted, and memory is given for them. -/
theorem xcFileLoadImages_denotes {malloc : Nat → Bool} {size : Int32}
    (huge : ∀ request, 2 ^ 63 ≤ request → malloc request = false)
    (positive : ∀ toc, Lists file toc → ∀ entry ∈ toc, entry.type = imageType →
      entry.subtype ≠ 0) :
    (xcFileLoadImages malloc file size 0).value? = some images ↔
      0 ≤ size ∧ ∃ toc best, Lists file toc ∧ nearest toc size.toUInt32 = some best ∧
        List.Forall₂ (ImageAt file) (ofSize best toc) images ∧ Allocated malloc toc images :=
  Outcome.value?_eq_some.trans (xcFileLoadImages_returned huge positive)

theorem xcFileLoadImages_denotes_dots :
    (xcFileLoadImages (· < 2 ^ 63) (encode dots) 24 0).value? =
      some (dots.filter (·.size = 24)) := by
  obtain ⟨listed, chunks⟩ := lists_encode dots (by decide)
  refine (xcFileLoadImages_denotes (fun request large => decide_eq_false (by omega))
    (positive_encode wellFormed_dots (by decide))).mpr
      ⟨by decide, _, 24, listed, by decide, imageAt_entries wellFormed_dots chunks (by decide), ?_⟩
  exact allocated_encode wellFormed_dots (by decide) fun request small => decide_eq_true (by omega)

end

end Miral.XCursor
