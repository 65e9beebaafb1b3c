import Miral.Library.Tokens
import Miral.Library.Walk
import Miral.XCursor

/-! Cursor themes: where they are looked for, what they inherit and what the loader keeps of them.
A path is written into a block that is allocated for it, and a write beyond its end is a failure.
Strings are shorter than an `int` can tell. -/
namespace Miral.XCursor

open Program Prog Tokens

/-- The bytes of a string, up to the one that ends it. -/
abbrev CString := List Char

/-- What a file is called and of which type it is, where the directory tells. -/
inductive DirentType where
  | unknown | reg | lnk | other
  deriving DecidableEq

structure Dirent where
  name : CString
  type : DirentType

/-- What the loader finds around it. -/
structure Environment where
  malloc : Nat → Bool
  home : Option CString
  xcursorPath : Option CString
  opendir : CString → Option (List Dirent)
  fopen : CString → Option (List UInt8)
  /-- `default_cursor_size`, as width and height. -/
  defaultCursorSize : UInt32 × UInt32

/-- `XCURSORPATH`. -/
def xcursorPath : CString :=
  "~/.icons:/usr/share/icons:/usr/share/pixmaps:~/.cursors:/usr/share/cursors/xorg-x11:".toList ++
    "/usr/X11R6/lib/X11/icons".toList

def colon (c : Char) : Bool := c = ':'
def slash (c : Char) : Bool := c = '/'
def xcursorWhite (c : Char) : Bool := c = ' ' ∨ c = '\t' ∨ c = '\n'
def xcursorSep (c : Char) : Bool := c = ';' ∨ c = ','

def fits (block : Nat) (s : CString) : Except Failure Unit :=
  if block < s.length + 1 then .error .overrun else .ok ()

/-- Without the leading slashes, of which `len` counts some. -/
def stripSlashes : CString → Nat → CString
  | '/' :: elt, len + 1 => stripSlashes elt len
  | elt, len => elt.take len

def addPathElt (block : Nat) (path elt : CString) (len : Nat) : Except Failure CString := do
  let path := if path.getLast? = some '/' then path else path ++ ['/']
  fits block path
  let path := path ++ stripSlashes elt len
  fits block path
  pure path

def lengthToColon (s : CString) : Nat := (s.takeWhile (!colon ·)).length

/-- `_XcursorNextPath`. -/
def nextPath (path : CString) : Option CString :=
  match path.dropWhile (!colon ·) with
  | [] => none
  | _ :: rest => some rest

/-- The path and those that come after it, as the loops take them. -/
theorem rests_colon (path : CString) :
    rests colon path = path :: (nextPath path).elim [] (rests colon) := by
  have after (path : CString) :
      rests.after colon path = (nextPath path).elim [] (rests colon) := by
    induction path with
    | nil => rfl
    | cons c rest ih =>
      by_cases ends : colon c
      · simp [rests.after, nextPath, ends, rests]
      · simpa [rests.after, nextPath, ends] using ih
  rw [rests, after]

namespace Environment

variable (env : Environment)

/-- `XcursorLibraryPath`. -/
def libraryPath : CString := env.xcursorPath.getD XCursor.xcursorPath

/-- `_XcursorBuildThemeDir`. -/
def buildThemeDir (dir theme : CString) : Except Failure (Option CString) :=
  let dirlen := lengthToColon dir
  let themelen := lengthToColon theme
  if dir.head? = some '~' then
    match env.home with
    | none => pure none
    | some home =>
      let len := 1 + home.length + 1 + (dirlen - 1) + 1 + themelen + 1
      if env.malloc len then do
        let full ← addPathElt len [] home home.length
        let full ← addPathElt len full dir.tail (dirlen - 1)
        let full ← addPathElt len full theme themelen
        pure (some full)
      else pure none
  else
    let len := 1 + 0 + 1 + dirlen + 1 + themelen + 1
    if env.malloc len then do
      let full ← addPathElt len [] dir dirlen
      let full ← addPathElt len full theme themelen
      pure (some full)
    else pure none

/-- `_XcursorBuildFullname`. -/
def buildFullname (dir subdir file : CString) : Except Failure (Option CString) :=
  let len := 4 + dir.length + 1 + subdir.length + 1 + file.length + 1
  if env.malloc len then do
    let full ← addPathElt len [] dir dir.length
    let full ← addPathElt len full subdir subdir.length
    let full ← addPathElt len full file file.length
    pure (some full)
  else pure none

end Environment

/-- What `fgets` reads of a file into a line of 8192 bytes, `line` being there already. -/
def readLines (line : CString) : List Char → List CString
  | [] => if line = [] then [] else [line]
  | c :: rest =>
    if c = '\n' ∨ (line ++ [c]).length = 8191 then (line ++ [c]) :: readLines [] rest
    else readLines (line ++ [c]) rest

def linesOf (file : List UInt8) : List CString :=
  (readLines [] (file.map fun byte => Char.ofNat byte.toNat)).map (·.takeWhile (· ≠ '\x00'))

/-- What stands behind the key and `=`. -/
def inheritsValue (line : CString) : Option CString :=
  if "Inherits".toList <+: line then
    match (line.drop 8).dropWhile (· = ' ') with
    | '=' :: l => some (l.dropWhile (· = ' '))
    | _ => none
  else none

/-- The two inner loops; `within` is whether the last character has been copied. -/
def copyTokens (block : Nat) : Bool → CString → CString → Except Failure CString
  | _, result, [] => do
    fits block result
    pure result
  | within, result, c :: l =>
    if xcursorSep c ∨ xcursorWhite c then copyTokens block false result l
    else do
      let result := if within ∨ result = [] then result else result ++ [':']
      fits block (result ++ [c])
      copyTokens block true (result ++ [c]) l

/-- The images of the size that is wanted; the callback owns them. -/
abbrev Loader (α : Type) : Type := Prog Failure (CString → Option Image) α

namespace Environment

variable (env : Environment)

/-- `_XcursorThemeInherits`. -/
def themeInherits (full : CString) : Except Failure (Option CString) :=
  match env.fopen full with
  | none => pure none
  | some file =>
    match (linesOf file).findSome? inheritsValue with
    | none => pure none
    | some l =>
      if env.malloc (l.length + 1) then do
        let result ← copyTokens (l.length + 1) false [] l
        pure (some result)
      else pure none

/-- `load_appropriately_sized_image`. A string is not made of a null pointer. -/
def loadAppropriatelySizedImage (name : Option CString) (images : List Image) : Loader Unit :=
  match images.find? fun image => (image.width, image.height) = env.defaultCursorSize with
  | none => pure ()
  | some image =>
    match name with
    | none => fail .null
    | some name => update fun loadedImages => Function.update loadedImages name (some image)

/-- An entry of a directory. Images that have no name are loaded nonetheless. -/
def loadCursor (path : CString) (ent : Dirent) : Loader Unit :=
  if ent.type ≠ .unknown ∧ ent.type ≠ .reg ∧ ent.type ≠ .lnk then pure ()
  else do
    match ← ofExcept (env.buildFullname path [] ent.name) with
    | none => pure ()
    | some full =>
      match env.fopen full with
      | none => pure ()
      | some file =>
        match xcFileLoadImages env.malloc file env.defaultCursorSize.1.toInt32 0 with
        | .returned images _ =>
          env.loadAppropriatelySizedImage
            (if env.malloc (ent.name.length + 1) then some ent.name else none) images
        | .thrown .null _ => pure ()
        | .thrown failure _ => fail failure
        | .exhausted => exhaust

/-- `load_all_cursors_from_dir`. -/
def loadAllCursorsFromDir (path : CString) : Loader Unit :=
  match env.opendir path with
  | none => pure ()
  | some entries => forEach (env.loadCursor path) entries

def loadCursorsIn (dir : CString) : Loader Unit := do
  match ← ofExcept (env.buildFullname dir "cursors".toList []) with
  | some full => env.loadAllCursorsFromDir full
  | none => pure ()

def inheritsFrom (dir : CString) : Except Failure (Option CString) := do
  match ← env.buildFullname dir [] "index.theme".toList with
  | some full => env.themeInherits full
  | none => pure none

/-- The loop over the library path; `inherits` is what has been found of it so far. -/
def loadFromPath (theme : CString) : List CString → Option CString → Loader (Option CString)
  | [], inherits => pure inherits
  | path :: rest, inherits => do
    match ← ofExcept (env.buildThemeDir path theme) with
    | none => loadFromPath theme rest inherits
    | some dir => do
      env.loadCursorsIn dir
      let inherits ← if inherits.isSome then pure inherits else ofExcept (env.inheritsFrom dir)
      loadFromPath theme rest inherits

/-- `xcursor_load_theme`. A theme ends at its first colon. -/
def loadTheme : Nat → CString → Loader Unit
  | 0, _ => exhaust
  | fuel + 1, theme => do
    let inherits ← env.loadFromPath theme (rests colon env.libraryPath) none
    forEach (loadTheme fuel) (inherits.elim [] (rests colon))

end Environment

inductive MirCursor where
  | default | arrow | busy | caret | pointingHand | openHand | closedHand | horizontalResize
  | verticalResize | diagonalResizeBottomToTop | diagonalResizeTopToBottom | omnidirectionalResize
  | vsplitResize | hsplitResize | crosshair
  deriving DecidableEq

/-- In the order in which a name is compared with theirs. -/
def MirCursor.all : List MirCursor :=
  [.default, .arrow, .busy, .caret, .pointingHand, .openHand, .closedHand, .horizontalResize,
    .verticalResize, .diagonalResizeBottomToTop, .diagonalResizeTopToBottom,
    .omnidirectionalResize, .vsplitResize, .hsplitResize, .crosshair]

def MirCursor.xcursorName : MirCursor → String
  | .default => "arrow"
  | .arrow => "arrow"
  | .busy => "watch"
  | .caret => "xterm"
  | .pointingHand => "hand2"
  | .openHand => "hand"
  | .closedHand => "grabbing"
  | .horizontalResize => "h_double_arrow"
  | .verticalResize => "v_double_arrow"
  | .diagonalResizeBottomToTop => "top_right_corner"
  | .diagonalResizeTopToBottom => "bottom_right_corner"
  | .omnidirectionalResize => "fleur"
  | .vsplitResize => "v_double_arrow"
  | .hsplitResize => "h_double_arrow"
  | .crosshair => "crosshair"

section

variable (mirName : MirCursor → CString)

def xcursorNameForMirCursor (mirCursorName : CString) : CString :=
  match MirCursor.all.find? fun cursor => mirCursorName = mirName cursor with
  | some cursor => cursor.xcursorName.toList
  | none => mirCursorName

def image (env : Environment) (loadedImages : CString → Option Image) (cursorName : CString)
    (size : UInt32 × UInt32) : Except String (Option Image) :=
  if size ≠ env.defaultCursorSize then
    .error "Only the default cursor size is currently supported (mi::default_cursor_size)"
  else
    .ok ((loadedImages (xcursorNameForMirCursor mirName cursorName)).or
      (loadedImages "arrow".toList))

end

end Miral.XCursor
