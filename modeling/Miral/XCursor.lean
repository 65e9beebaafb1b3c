import Mathlib.Algebra.Order.Ring.Int
import Miral.Library.ByteFile
import Miral.Library.Program

/-! The reader of cursor files. Every word that is written goes to an allocated block, and a
write beyond the end of the block is a failure of its own; so is a product that an `int` does
not hold. The file is seekable, as a regular file is. -/
namespace Miral.XCursor

open Program Prog ByteFile

def magicNumber : UInt32 := 0x72756358
def fileHeaderLen : UInt32 := 16
def imageType : UInt32 := 0xfffd0002
def imageVersion : UInt32 := 1

/-- Why no images are loaded: the reader returns a null pointer, or what it does is undefined. -/
inductive Failure where
  | null
  | overrun
  | overflow
  deriving DecidableEq

structure FileToc where
  type : UInt32
  subtype : UInt32
  position : UInt32
  deriving DecidableEq

structure FileHeader where
  magic : UInt32
  header : UInt32
  version : UInt32
  ntoc : UInt32
  tocs : List FileToc
  deriving DecidableEq

structure ChunkHeader where
  header : UInt32
  type : UInt32
  subtype : UInt32
  version : UInt32
  deriving DecidableEq

structure Image where
  version : UInt32
  size : UInt32
  width : UInt32
  height : UInt32
  xhot : UInt32
  yhot : UInt32
  delay : UInt32
  pixels : List UInt32
  deriving DecidableEq

/-- The state is the position in the file. -/
abbrev Reader (α : Type) : Type := Prog Failure Nat α

/-- Writes `len` bytes from `offset` on into a block. -/
def store (block offset len : Nat) : Reader Unit := failIf (block < offset + len) .overrun

section

variable (malloc : Nat → Bool) (file : List UInt8)

/-- The size of the block that is asked for wraps as a `size_t`. -/
def allocate (size : Int) : Reader Nat := do
  let block := (size % 2 ^ 64).toNat
  failIf (¬malloc block) .null
  pure block

def readUInt : Reader UInt32 := do
  match wordAt file (← state) with
  | some u =>
    update (· + 4)
    pure u
  | none => fail .null

/-- Reads a word into a block. -/
def readInto (block offset : Nat) : Reader UInt32 := do
  let u ← readUInt file
  store block offset 4
  pure u

/-- `sizeof (XcursorFileHeader)` is 24 and `sizeof (XcursorFileToc)` is 12. -/
def fileHeaderCreate (ntoc : Int32) : Reader Nat := do
  failIf (ntoc > 0x10000) .null
  let block ← allocate malloc (24 + ntoc.toInt * 12)
  store block 0 24
  pure block

/-- The entries from the `n`-th on, `left` of them. -/
def readTocs (block : Nat) : Nat → Nat → Reader (List FileToc)
  | _, 0 => pure []
  | n, left + 1 => do
    let type ← readInto file block (24 + n * 12)
    let subtype ← readInto file block (24 + n * 12 + 4)
    let position ← readInto file block (24 + n * 12 + 8)
    let rest ← readTocs block (n + 1) left
    pure (⟨type, subtype, position⟩ :: rest)

def readFileHeader : Reader FileHeader := do
  let magic ← readUInt file
  failIf (magic ≠ magicNumber) .null
  let header ← readUInt file
  let version ← readUInt file
  let ntoc ← readUInt file
  let skip := header - fileHeaderLen
  update (· + skip.toNat)
  let block ← fileHeaderCreate malloc ntoc.toInt32
  let tocs ← readTocs file block 0 ntoc.toNat
  pure { magic, header, version, ntoc, tocs }

/-- An entry that is not in the table is read beyond the end of its block. -/
def tocAt (tocs : List FileToc) (toc : Nat) : Reader FileToc :=
  match tocs[toc]? with
  | some entry => pure entry
  | none => fail .overrun

def fileReadChunkHeader (fileHeader : FileHeader) (toc : Nat) : Reader ChunkHeader := do
  let entry ← tocAt fileHeader.tocs toc
  update fun _ => entry.position.toNat
  let header ← readUInt file
  let type ← readUInt file
  let subtype ← readUInt file
  let version ← readUInt file
  failIf (type ≠ entry.type ∨ subtype ≠ entry.subtype) .null
  pure { header, type, subtype, version }

def dist (a b : UInt32) : UInt32 := if a > b then a - b else b - a

/-- The best size so far, `0` before there is one, and how many entries have it. -/
def considerSize (size : UInt32) (best : UInt32 × Nat) (entry : FileToc) : UInt32 × Nat :=
  if entry.type ≠ imageType then best
  else if best.1 = 0 ∨ dist entry.subtype size < dist best.1 size then (entry.subtype, 1)
  else if entry.subtype = best.1 then (best.1, best.2 + 1)
  else best

def findBestSize (fileHeader : FileHeader) (size : UInt32) : UInt32 × Nat :=
  fileHeader.tocs.foldl (considerSize size) (0, 0)

/-- The index of the image entry of the given size that has `count` such entries before it. -/
def findImageToc (size : UInt32) : List FileToc → Nat → Option Nat
  | [], _ => none
  | entry :: rest, count =>
    if entry.type ≠ imageType ∨ entry.subtype ≠ size then
      (findImageToc size rest count).map (· + 1)
    else
      match count with
      | 0 => some 0
      | count + 1 => (findImageToc size rest count).map (· + 1)

/-- `sizeof (XcursorImage)` is 40. -/
def imageCreate (width height : UInt32) : Reader Nat := do
  failIf (2 ^ 31 ≤ width.toNat * height.toNat) .overflow
  let block ← allocate malloc (40 + width.toNat * height.toNat * 4)
  store block 0 40
  pure block

/-- The pixels from the `p`-th on, `n` of them. -/
def readPixels (block : Nat) : Nat → Nat → Reader (List UInt32)
  | _, 0 => pure []
  | p, n + 1 => do
    let pixel ← readInto file block (40 + p * 4)
    let rest ← readPixels block (p + 1) n
    pure (pixel :: rest)

def readImage (fileHeader : FileHeader) (toc : Nat) : Reader Image := do
  let chunkHeader ← fileReadChunkHeader file fileHeader toc
  let width ← readUInt file
  let height ← readUInt file
  let xhot ← readUInt file
  let yhot ← readUInt file
  let delay ← readUInt file
  failIf (width ≥ 0x10000 ∨ height > 0x10000) .null
  failIf (width = 0 ∨ height = 0) .null
  failIf (xhot > width ∨ yhot > height) .null
  let block ← imageCreate malloc width height
  let version := if chunkHeader.version < imageVersion then chunkHeader.version else imageVersion
  let pixels ← readPixels file block 0 (width * height).toNat
  pure { version, size := chunkHeader.subtype, width, height, xhot, yhot, delay, pixels }

/-- The images from the `n`-th on, `left` of them. -/
def readImages (fileHeader : FileHeader) (bestSize : UInt32) (block : Nat) :
    Nat → Nat → Reader (List Image)
  | _, 0 => pure []
  | n, left + 1 => do
    match findImageToc bestSize fileHeader.tocs n with
    | none => fail .null
    | some toc =>
      let image ← readImage malloc file fileHeader toc
      store block (24 + n * 8) 8
      let rest ← readImages fileHeader bestSize block (n + 1) left
      pure (image :: rest)

/-- `sizeof (XcursorImages)` is 24 and a pointer takes 8 bytes. -/
def xcFileLoadImages (size : Int32) : Reader (List Image) := do
  failIf (size < 0) .null
  let fileHeader ← readFileHeader malloc file
  let best := findBestSize fileHeader size.toUInt32
  failIf (best.1 = 0) .null
  let block ← allocate malloc (24 + best.2 * 8)
  store block 0 24
  readImages malloc file fileHeader best.1 block 0 best.2

end

end Miral.XCursor
