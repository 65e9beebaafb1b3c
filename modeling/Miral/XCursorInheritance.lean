import Mathlib.Order.WellFounded
import Miral.XCursorPaths
import Miral.XCursorRoundTrip

/-! What is loaded of a theme and of those it inherits, and when the loading comes to an end. -/
namespace Miral.XCursor

open Program Prog Tokens

namespace Environment

variable (env : Environment)

def fullname (dir subdir file : CString) : Option CString :=
  match env.buildFullname dir subdir file with
  | .ok full => full
  | .error _ => none

def themeDir (theme dir : CString) : Option CString :=
  match env.buildThemeDir dir theme with
  | .ok full => full
  | .error _ => none

def inheritsIn (full : CString) : Option CString :=
  match env.themeInherits full with
  | .ok inherits => inherits
  | .error _ => none

/-- The images in a file, all of one size. -/
def imagesIn (file : List UInt8) : Option (List Image) :=
  match xcFileLoadImages env.malloc file env.defaultCursorSize.1.toInt32 0 with
  | .returned images _ => some images
  | _ => none

def cursorOf (path : CString) (ent : Dirent) : Option (CString × Image) :=
  if ent.type ≠ .unknown ∧ ent.type ≠ .reg ∧ ent.type ≠ .lnk then none
  else do
    let full ← env.fullname path [] ent.name
    let file ← env.fopen full
    let images ← env.imagesIn file
    let image ← images.find? fun image => (image.width, image.height) = env.defaultCursorSize
    pure (ent.name, image)

def cursorsIn (path : CString) : List (CString × Image) :=
  ((env.opendir path).getD []).filterMap (env.cursorOf path)

/-- Where a theme is found, in the order of the library path. -/
def themeDirs (theme : CString) : List CString :=
  (rests colon env.libraryPath).filterMap (env.themeDir theme)

def cursorsAt (dir : CString) : List (CString × Image) :=
  (env.fullname dir "cursors".toList []).elim [] env.cursorsIn

/-- What a place of a theme tells of what the theme inherits. -/
def inheritsAt (dir : CString) : Option CString :=
  (env.fullname dir [] "index.theme".toList).bind env.inheritsIn

def cursorsOf (theme : CString) : List (CString × Image) :=
  (env.themeDirs theme).flatMap env.cursorsAt

def parents (theme : CString) : List CString :=
  ((env.themeDirs theme).findSome? env.inheritsAt).elim [] (rests colon)

/-- Reading a file has a defined outcome. -/
def Readable (file : List UInt8) : Prop :=
  ∃ pos, (∃ images, xcFileLoadImages env.malloc file env.defaultCursorSize.1.toInt32 0 =
      .returned images pos) ∨
    xcFileLoadImages env.malloc file env.defaultCursorSize.1.toInt32 0 = .thrown .null pos

/-- No file makes its reader write out of bounds, and names can be copied. -/
structure Sound : Prop where
  files : ∀ path file, env.fopen path = some file → env.Readable file
  names : ∀ path entries ent, env.opendir path = some entries → ent ∈ entries →
    env.malloc (ent.name.length + 1)

end Environment

def keep (loadedImages : CString → Option Image) (cursor : CString × Image) :
    CString → Option Image :=
  Function.update loadedImages cursor.1 (some cursor.2)

theorem foldl_keep_apply {loadedImages : CString → Option Image}
    {cursors : List (CString × Image)} {name : CString} :
    cursors.foldl keep loadedImages name =
      ((cursors.findRev? (·.1 = name)).map Prod.snd).or (loadedImages name) := by
  induction cursors generalizing loadedImages with
  | nil => rfl
  | cons cursor rest ih =>
    rw [List.foldl_cons, ih, keep]
    simp only [List.findRev?_eq_find?_reverse, List.reverse_cons, List.find?_append]
    cases rest.reverse.find? (·.1 = name) with
    | some later => rfl
    | none =>
      by_cases same : cursor.1 = name
      · subst same
        simp
      · simp [same, Function.update_of_ne (Ne.symm same)]

namespace Environment

variable {env : Environment} {path theme dir subdir file full : CString}
  {loadedImages : CString → Option Image}

theorem buildFullname_eq : env.buildFullname dir subdir file = .ok (env.fullname dir subdir file) := by
  obtain ⟨full, built, -⟩ := env.buildFullname_ok dir subdir file
  rw [fullname, built]

theorem buildThemeDir_eq : env.buildThemeDir dir theme = .ok (env.themeDir theme dir) := by
  obtain ⟨full, built, -⟩ := env.buildThemeDir_ok dir theme
  rw [themeDir, built]

theorem themeInherits_eq : env.themeInherits full = .ok (env.inheritsIn full) := by
  obtain ⟨inherits, told, -⟩ := themeInherits_ok env full
  rw [inheritsIn, told]

theorem loadAppropriatelySizedImage_run {name : CString} {images : List Image} :
    env.loadAppropriatelySizedImage (some name) images loadedImages =
      .returned () (((images.find? fun image =>
        (image.width, image.height) = env.defaultCursorSize).elim loadedImages
          fun image => keep loadedImages (name, image))) := by
  unfold loadAppropriatelySizedImage
  cases images.find? _ <;> rfl

/-- An entry adds the cursor that it gives, if it gives one. -/
theorem loadCursor_run {entries : List Dirent} {ent : Dirent} (sound : env.Sound)
    (there : env.opendir path = some entries) (member : ent ∈ entries) :
    env.loadCursor path ent loadedImages = .returned ()
      ((env.cursorOf path ent).elim loadedImages (keep loadedImages)) := by
  have named := sound.names path entries ent there member
  unfold loadCursor cursorOf
  by_cases skipped : ent.type ≠ .unknown ∧ ent.type ≠ .reg ∧ ent.type ≠ .lnk
  · rw [if_pos skipped, if_pos skipped]
    rfl
  · rw [if_neg skipped, if_neg skipped, buildFullname_eq, ofExcept_ok_bind]
    cases env.fullname path [] ent.name with
    | none => rfl
    | some full =>
      dsimp only
      cases opened : env.fopen full with
      | none => simp [opened, pure_run]
      | some file =>
        simp only [opened, Option.bind_eq_bind, Option.bind_some, imagesIn]
        obtain ⟨pos, ⟨images, read⟩ | read⟩ := sound.files full file opened
        · rw [read]
          dsimp only
          rw [if_pos named, loadAppropriatelySizedImage_run, Option.bind_some]
          cases images.find? _ <;> rfl
        · rw [read]
          rfl

theorem loadAllCursorsFromDir_run (sound : env.Sound) :
    env.loadAllCursorsFromDir path loadedImages =
      .returned () ((env.cursorsIn path).foldl keep loadedImages) := by
  unfold loadAllCursorsFromDir cursorsIn
  cases there : env.opendir path with
  | none => rfl
  | some entries =>
    dsimp only
    rw [forEach_run fun ent member loadedImages => loadCursor_run sound there member,
      Option.getD_some, List.foldl_filterMap]
    congr 2
    funext loaded ent
    cases env.cursorOf path ent <;> rfl

theorem loadCursorsIn_run (sound : env.Sound) : env.loadCursorsIn dir loadedImages =
    .returned () ((env.cursorsAt dir).foldl keep loadedImages) := by
  rw [loadCursorsIn, buildFullname_eq, ofExcept_ok_bind, cursorsAt]
  cases env.fullname dir "cursors".toList [] with
  | some full => exact loadAllCursorsFromDir_run sound
  | none => rfl

theorem inheritsFrom_eq : env.inheritsFrom dir = .ok (env.inheritsAt dir) := by
  rw [inheritsFrom, buildFullname_eq, inheritsAt]
  cases env.fullname dir [] "index.theme".toList with
  | some full => exact themeInherits_eq
  | none => rfl

theorem loadFromPath_run (sound : env.Sound) {paths : List CString} {inherits : Option CString} :
    env.loadFromPath theme paths inherits loadedImages = .returned
      (inherits.or ((paths.filterMap (env.themeDir theme)).findSome? env.inheritsAt))
      (((paths.filterMap (env.themeDir theme)).flatMap env.cursorsAt).foldl keep loadedImages) := by
  induction paths generalizing inherits loadedImages with
  | nil => simp [loadFromPath, pure_run]
  | cons path rest ih =>
    rw [loadFromPath, buildThemeDir_eq, ofExcept_ok_bind]
    cases found : env.themeDir theme path with
    | none => simpa [List.filterMap_cons, found] using ih
    | some dir =>
      dsimp only
      rw [bind_of_returned (loadCursorsIn_run sound), List.filterMap_cons_some found,
        List.flatMap_cons, List.foldl_append, List.findSome?_cons]
      cases inherits with
      | some inherits => exact ih
      | none =>
        change (ofExcept (env.inheritsFrom dir) >>= _) _ = _
        rw [inheritsFrom_eq, ofExcept_ok_bind, ih]
        cases env.inheritsAt dir <;> rfl

/-- All that is done for a theme itself. -/
def loadOwn (env : Environment) (theme : CString) : Loader (List CString) := do
  let inherits ← env.loadFromPath theme (rests colon env.libraryPath) none
  pure (inherits.elim [] (rests colon))

theorem loadOwn_run (sound : env.Sound) (theme : CString) (loadedImages : CString → Option Image) :
    env.loadOwn theme loadedImages =
      .returned (env.parents theme) ((env.cursorsOf theme).foldl keep loadedImages) := by
  rw [loadOwn, bind_of_returned (loadFromPath_run sound)]
  rfl

theorem loadTheme_eq_visit (fuel : Nat) : env.loadTheme fuel theme = visit env.loadOwn fuel theme := by
  induction fuel generalizing theme with
  | zero => rfl
  | succ fuel ih =>
    funext loadedImages
    have below : env.loadTheme fuel = visit env.loadOwn fuel := funext fun theme => ih
    rw [loadTheme, visit, loadOwn, below, bind_run, bind_run, bind_run]
    cases env.loadFromPath theme (rests colon env.libraryPath) none loadedImages <;> rfl

def Inherits (env : Environment) (parent theme : CString) : Prop := parent ∈ env.parents theme

theorem loadTheme_returns_iff (sound : env.Sound) :
    (∃ fuel loaded, env.loadTheme fuel theme loadedImages = .returned () loaded) ↔
      Acc env.Inherits theme := by
  simp only [loadTheme_eq_visit]
  exact visit_returns_iff (loadOwn_run sound)

/-- A theme is loaded completely, or the loader goes on until its stack is used up: nothing else
can happen, and it is up to whether some chain of inherited themes never ends. -/
theorem loadTheme_ends (sound : env.Sound) :
    ((∃ fuel loaded, env.loadTheme fuel theme loadedImages = .returned () loaded) ↔
      Acc env.Inherits theme) ∧
    ∀ fuel failure loaded, env.loadTheme fuel theme loadedImages ≠ .thrown failure loaded := by
  refine ⟨loadTheme_returns_iff sound, fun fuel failure loaded thrown => ?_⟩
  rw [loadTheme_eq_visit] at thrown
  exact (ensures_visit (loadOwn_run sound) fuel loadedImages).thrown thrown

/-- The last cursor of a name. -/
def lastNamed (cursors : List (CString × Image)) (name : CString) : Option Image :=
  (cursors.findRev? (·.1 = name)).map Prod.snd

theorem loadTheme_keeps (sound : env.Sound) {fuel : Nat} {loaded : CString → Option Image}
    (run : env.loadTheme fuel theme (fun _ => none) = .returned () loaded) :
    ∃ visited, Walk env.parents [theme] visited ∧
      ∀ name, loaded name = lastNamed (visited.flatMap env.cursorsOf) name := by
  rw [loadTheme_eq_visit] at run
  obtain ⟨visited, walk, rfl⟩ := (ensures_visit (loadOwn_run sound) fuel _).returned run
  refine ⟨visited, walk, fun name => ?_⟩
  rw [← List.foldl_flatMap, foldl_keep_apply, Option.or_none, lastNamed]

/-- A cursor is the last of its name among those of the theme, and then of the themes it inherits,
each with those that it inherits in turn; where there is none it is the arrow. -/
theorem image_of_theme (sound : env.Sound) {fuel : Nat} {loaded : CString → Option Image}
    (run : env.loadTheme fuel theme (fun _ => none) = .returned () loaded)
    (mirName : MirCursor → CString) :
    ∃ visited, Walk env.parents [theme] visited ∧ ∀ cursorName,
      image mirName env loaded cursorName env.defaultCursorSize =
        .ok ((lastNamed (visited.flatMap env.cursorsOf)
          (xcursorNameForMirCursor mirName cursorName)).or
            (lastNamed (visited.flatMap env.cursorsOf) "arrow".toList)) := by
  obtain ⟨visited, walk, kept⟩ := loadTheme_keeps sound run
  refine ⟨visited, walk, fun cursorName => ?_⟩
  rw [image, if_neg (by simp), kept, kept]

def square (color : UInt32) : Image := ⟨1, 24, 24, 24, 0, 0, 0, List.replicate 576 color⟩

/-- Two themes with an arrow each, the first of which inherits `inherited`. -/
def twoThemes (inherited : String) : Environment where
  malloc := (· < 2 ^ 63)
  home := none
  xcursorPath := some "/t".toList
  opendir path :=
    if path ∈ ["/t/a/cursors/".toList, "/t/b/cursors/".toList] then some [⟨"arrow".toList, .reg⟩]
    else none
  fopen path :=
    if path = "/t/a/index.theme".toList then
      some (("Inherits = ".toList ++ inherited.toList).map fun c => .ofNat c.toNat)
    else if path = "/t/a/cursors/arrow".toList then some (encode [square 1])
    else if path = "/t/b/cursors/arrow".toList then some (encode [square 2])
    else none
  defaultCursorSize := (24, 24)

theorem wellFormed_square (color : UInt32) : ∀ image ∈ [square color], image.WellFormed := by
  rintro _ member
  obtain rfl := List.mem_singleton.mp member
  have side : 0 < (24 : UInt32).toNat ∧ (24 : UInt32).toNat < 2 ^ 16 := by decide
  exact ⟨UInt32.le_refl 1, (by decide : (24 : UInt32) ≠ 0),
    ⟨side, ⟨side.1, side.2.le⟩, ⟨Nat.zero_le _, Nat.zero_le _⟩,
      (by decide : (24 : UInt32).toNat * (24 : UInt32).toNat < 2 ^ 31)⟩, List.length_replicate⟩

theorem xcFileLoadImages_square (color : UInt32) : ∃ pos,
    xcFileLoadImages (· < 2 ^ 63) (encode [square color]) 24 0 = .returned [square color] pos := by
  have wellFormed := wellFormed_square color
  have few : [square color].length ≤ 0x10000 := by simp
  have length : ([square color].flatMap Image.chunk).length = 585 := by
    have pixels : (square color).pixels.length = 576 := List.length_replicate
    simp [Image.chunk, Image.words, pixels]
  obtain ⟨listed, chunks⟩ := lists_encode [square color] few
  have all : [square color].filter (·.size = 24) = [square color] := rfl
  have loaded : ∃ pos, xcFileLoadImages (· < 2 ^ 63) (encode [square color]) 24 0 =
      .returned ([square color].filter (·.size = 24)) pos := by
    refine (xcFileLoadImages_returned (fun request large => decide_eq_false (by omega))
      (positive_encode wellFormed few)).mpr ⟨by decide, _, 24, listed, rfl, ?_, ?_⟩
    · exact imageAt_entries wellFormed chunks (by rw [length]; simp)
    · exact allocated_encode wellFormed few fun request small => decide_eq_true (by omega)
  rwa [all] at loaded

/-- What `"a"` inherits may be itself. -/
theorem sound_twoThemes {inherited : String} (named : inherited = "a" ∨ inherited = "b") :
    (twoThemes inherited).Sound where
  files path file opened := by
    change (if path = _ then _ else _) = _ at opened
    split at opened
    · obtain rfl := Option.some.inj opened
      rcases named with rfl | rfl
      · exact ⟨_, .inr rfl⟩
      · exact ⟨_, .inr rfl⟩
    · split at opened
      · obtain rfl := Option.some.inj opened
        obtain ⟨pos, read⟩ := xcFileLoadImages_square 1
        exact ⟨pos, .inl ⟨_, read⟩⟩
      · split at opened
        · obtain rfl := Option.some.inj opened
          obtain ⟨pos, read⟩ := xcFileLoadImages_square 2
          exact ⟨pos, .inl ⟨_, read⟩⟩
        · contradiction
  names path entries ent there member := by
    change (if path ∈ _ then _ else _) = _ at there
    split at there
    · obtain rfl := Option.some.inj there
      obtain rfl := List.mem_singleton.mp member
      rfl
    · contradiction

theorem parents_twoThemes : (twoThemes "b").parents "a".toList = ["b".toList] ∧
    (twoThemes "b").parents "b".toList = [] ∧
    (twoThemes "a").parents "a".toList = ["a".toList] := by
  decide +kernel

theorem acc_twoThemes : Acc (twoThemes "b").Inherits "a".toList := by
  obtain ⟨first, second, -⟩ := parents_twoThemes
  refine ⟨_, fun parent inherited => ?_⟩
  rw [Inherits, first] at inherited
  obtain rfl := List.mem_singleton.mp inherited
  refine ⟨_, fun parent inherited => ?_⟩
  rw [Inherits, second] at inherited
  exact absurd inherited List.not_mem_nil

/-- A theme that inherits another one is loaded; one that inherits itself never is. -/
theorem loadTheme_ends_twoThemes :
    (∃ fuel loaded, (twoThemes "b").loadTheme fuel "a".toList (fun _ => none) =
      .returned () loaded) ∧
    ¬∃ fuel loaded, (twoThemes "a").loadTheme fuel "a".toList (fun _ => none) =
      .returned () loaded := by
  refine ⟨(loadTheme_ends (sound_twoThemes (.inr rfl))).1.mpr acc_twoThemes, fun loaded => ?_⟩
  have accessible := (loadTheme_ends (sound_twoThemes (.inl rfl))).1.mp loaded
  refine not_acc_iff_exists_descending_chain.mpr ⟨fun _ => "a".toList, rfl, fun _ => ?_⟩ accessible
  rw [Inherits, parents_twoThemes.2.2]
  exact List.mem_singleton_self _

theorem imagesIn_eq {env : Environment} {file : List UInt8} {images : List Image} {pos : Nat}
    (read : xcFileLoadImages env.malloc file env.defaultCursorSize.1.toInt32 0 =
      .returned images pos) : env.imagesIn file = some images := by
  rw [imagesIn, read]

theorem imagesIn_square (color : UInt32) :
    (twoThemes "b").imagesIn (encode [square color]) = some [square color] := by
  obtain ⟨pos, read⟩ := xcFileLoadImages_square color
  exact imagesIn_eq read

theorem cursorsAt_single {env : Environment} {dir full file name : CString} {images : List Image}
    (inside : env.fullname dir "cursors".toList [] = some full)
    (there : env.opendir full = some [⟨name, .reg⟩])
    (named : env.fullname full [] name = some file) {bytes : List UInt8}
    (opened : env.fopen file = some bytes) (read : env.imagesIn bytes = some images) :
    env.cursorsAt dir = ((images.find? fun image =>
      (image.width, image.height) = env.defaultCursorSize).map (name, ·)).toList := by
  have given : env.cursorOf full ⟨name, .reg⟩ = (images.find? fun image =>
      (image.width, image.height) = env.defaultCursorSize).map (name, ·) := by
    rw [cursorOf, if_neg (by simp)]
    simp only [named, opened, read, Option.bind_eq_bind, Option.bind_some]
    cases images.find? _ <;> rfl
  rw [cursorsAt, inside, Option.elim_some, cursorsIn, there, Option.getD_some, List.filterMap_cons,
    given]
  cases images.find? _ <;> rfl

theorem cursorsOf_twoThemes : (twoThemes "b").cursorsOf "a".toList = [("arrow".toList, square 1)] ∧
    (twoThemes "b").cursorsOf "b".toList = [("arrow".toList, square 2)] := by
  have first : (twoThemes "b").themeDirs "a".toList = ["/t/a".toList] := by decide +kernel
  have second : (twoThemes "b").themeDirs "b".toList = ["/t/b".toList] := by decide +kernel
  rw [cursorsOf, first, cursorsOf, second, List.flatMap_singleton, List.flatMap_singleton]
  have folder (dir : String) (known : dir ∈ ["/t/a", "/t/b"]) :
      (twoThemes "b").fullname dir.toList "cursors".toList [] =
        some (dir ++ "/cursors/").toList ∧
      (twoThemes "b").fullname (dir ++ "/cursors/").toList [] "arrow".toList =
        some (dir ++ "/cursors/arrow").toList ∧
      (dir ++ "/cursors/").toList ∈ ["/t/a/cursors/".toList, "/t/b/cursors/".toList] := by
    revert dir
    decide +kernel
  obtain ⟨insideA, namedA, thereA⟩ := folder "/t/a" (by simp)
  obtain ⟨insideB, namedB, thereB⟩ := folder "/t/b" (by simp)
  have openedA : (twoThemes "b").fopen ("/t/a" ++ "/cursors/arrow").toList =
      some (encode [square 1]) := by
    dsimp only [twoThemes]
    rw [if_neg (by decide +kernel), if_pos (by decide +kernel)]
  have openedB : (twoThemes "b").fopen ("/t/b" ++ "/cursors/arrow").toList =
      some (encode [square 2]) := by
    dsimp only [twoThemes]
    rw [if_neg (by decide +kernel), if_neg (by decide +kernel),
      if_pos (by decide +kernel)]
  have opens {path : CString}
      (there : path ∈ ["/t/a/cursors/".toList, "/t/b/cursors/".toList]) :
      (twoThemes "b").opendir path = some [⟨"arrow".toList, .reg⟩] := if_pos there
  rw [cursorsAt_single insideA (opens thereA) namedA openedA (imagesIn_square 1),
    cursorsAt_single insideB (opens thereB) namedB openedB (imagesIn_square 2)]
  exact ⟨rfl, rfl⟩

def arrowNames : MirCursor → CString
  | .default => "default".toList
  | cursor => cursor.xcursorName.toList

/-- The arrow is that of the inherited theme. -/
theorem image_of_theme_inherited : ∃ fuel loaded,
    (twoThemes "b").loadTheme fuel "a".toList (fun _ => none) = .returned () loaded ∧
    image arrowNames (twoThemes "b") loaded "default".toList (24, 24) = .ok (some (square 2)) := by
  obtain ⟨first, second, -⟩ := parents_twoThemes
  have sound : (twoThemes "b").Sound := sound_twoThemes (.inr rfl)
  obtain ⟨fuel, loaded, run⟩ := (loadTheme_returns_iff sound).mpr acc_twoThemes
  refine ⟨fuel, loaded, run, ?_⟩
  obtain ⟨visited, walk, given⟩ := image_of_theme sound run arrowNames
  have nothing : Walk (twoThemes "b").parents ((twoThemes "b").parents "b".toList) [] := by
    rw [second]
    exact .nil
  have below : Walk (twoThemes "b").parents ((twoThemes "b").parents "a".toList)
      ["b".toList] := by
    rw [first]
    exact .cons nothing .nil
  obtain rfl : visited = ["a".toList, "b".toList] := walk.unique (.cons below .nil)
  refine (given "default".toList).trans ?_
  rw [List.flatMap_cons, List.flatMap_singleton, cursorsOf_twoThemes.1, cursorsOf_twoThemes.2]
  have named : xcursorNameForMirCursor arrowNames "default".toList = "arrow".toList := by
    decide +kernel
  rw [named]
  rfl

end Environment

end Miral.XCursor
