import Mathlib.Algebra.BigOperators.Group.List.Basic
import Miral.XCursorTheme

/-! The paths of themes and cursors, and the line of a theme that tells what it inherits: no block
is too small for what is written into it, and what is written is what is meant. -/
namespace Miral.XCursor

open Program Tokens

/-- The names that a path leads through. -/
def segments (path : CString) : List CString := tokens slash path

/-- A path from the root that leads through `names`. -/
def LeadsThrough (full : CString) (names : List CString) : Prop :=
  full.head? = some '/' ∧ segments full = names

section AddPathElt

variable {block len : Nat} {path elt : CString}

theorem length_stripSlashes : (stripSlashes elt len).length ≤ len := by
  fun_induction stripSlashes elt len with
  | case1 elt len ih => omega
  | case2 elt len other => exact List.length_take_le len elt

theorem segments_stripSlashes : segments (stripSlashes elt len) = segments (elt.take len) := by
  fun_induction stripSlashes elt len with
  | case1 elt len ih =>
    rw [ih, List.take_succ_cons]
    exact (tokens_cons rfl).symm
  | case2 elt len other => rfl

/-- An element is added in a block with room for it, a slash and the zero at the end. -/
theorem addPathElt_ok (elt : CString) {names : List CString} (room : path.length + (1 + len) < block)
    (so : path = [] ∧ names = [] ∨ LeadsThrough path names) :
    ∃ full, addPathElt block path elt len = .ok full ∧
      full.length ≤ path.length + (1 + len) ∧
      LeadsThrough full (names ++ segments (elt.take len)) := by
  have short : (stripSlashes elt len).length ≤ len := length_stripSlashes
  -- whichever way the slash has come there
  have added (before : CString) (le : (before ++ ['/']).length ≤ path.length + 1)
      (absolute : (before ++ ['/']).head? = some '/') (there : segments before = names) :
      ∃ full, (do
        fits block (before ++ ['/'])
        let path := before ++ ['/'] ++ stripSlashes elt len
        fits block path
        pure path) = .ok full ∧ full.length ≤ path.length + (1 + len) ∧
        LeadsThrough full (names ++ segments (elt.take len)) := by
    have fit : ¬block < (before ++ ['/']).length + 1 := by omega
    have fit' : ¬block < (before ++ ['/'] ++ stripSlashes elt len).length + 1 := by
      rw [List.length_append]
      omega
    refine ⟨before ++ ['/'] ++ stripSlashes elt len, ?_, ?_, ?_, ?_⟩
    · simp only [fits, if_neg fit, if_neg fit']
      rfl
    · rw [List.length_append]
      omega
    · rw [List.head?_append, absolute]
      rfl
    · rw [List.append_assoc, List.singleton_append]
      exact (tokens_append_cons rfl).trans (congrArg₂ _ there segments_stripSlashes)
  unfold addPathElt
  by_cases ended : path.getLast? = some '/'
  · obtain ⟨before, rfl⟩ := List.getLast?_eq_some_iff.mp ended
    rw [if_pos ended]
    obtain ⟨absolute, there⟩ := so.resolve_left (by simp)
    exact added before (by omega) absolute ((tokens_concat rfl).symm.trans there)
  · rw [if_neg ended]
    rcases so with ⟨rfl, rfl⟩ | ⟨absolute, there⟩
    · exact added [] (by simp) rfl rfl
    · refine added path (by simp) ?_ there
      rw [List.head?_append, absolute]
      rfl

end AddPathElt

section Elements

variable {block : Nat}

/-- Elements that are added one after the other, each with how much of it counts. -/
def addPathElts (block : Nat) : CString → List (CString × Nat) → Except Failure CString
  | path, [] => pure path
  | path, (elt, len) :: rest => do
    let path ← addPathElt block path elt len
    addPathElts block path rest

theorem addPathElts_ok {path : CString} {names : List CString} {elts : List (CString × Nat)}
    (some : elts ≠ []) (room : path.length + (elts.map fun elt => 1 + elt.2).sum < block)
    (so : path = [] ∧ names = [] ∨ LeadsThrough path names) :
    ∃ full, addPathElts block path elts = .ok full ∧
      LeadsThrough full (names ++ elts.flatMap fun elt => segments (elt.1.take elt.2)) := by
  induction elts generalizing path names with
  | nil => exact absurd rfl some
  | cons first rest ih =>
    rw [List.map_cons, List.sum_cons] at room
    have fits : path.length + (1 + first.2) < block := by omega
    obtain ⟨path', added, short, leads⟩ := addPathElt_ok first.1 fits so
    rw [addPathElts, added]
    by_cases last : rest = []
    · subst last
      exact ⟨path', rfl, by simpa using leads⟩
    · have fits : path'.length + (rest.map fun elt => 1 + elt.2).sum < block := by omega
      obtain ⟨full, rested, leads⟩ := ih last fits (.inr leads)
      exact ⟨full, rested, by simpa using leads⟩

theorem fullPath_ok (block : Nat) (elts : List (CString × Nat)) (some : elts ≠ [])
    (room : (elts.map fun elt => 1 + elt.2).sum < block) :
    ∃ full, addPathElts block [] elts = .ok full ∧
      LeadsThrough full (elts.flatMap fun elt => segments (elt.1.take elt.2)) := by
  have fits : ([] : CString).length + (elts.map fun elt => 1 + elt.2).sum < block := by
    rwa [List.length_nil, Nat.zero_add]
  exact addPathElts_ok some fits (.inl ⟨rfl, rfl⟩)

end Elements

namespace Environment

variable (env : Environment)

/-- The names that a theme of a directory is found under, if there is a place for it. -/
def themeNames (dir theme : CString) : Option (List CString) :=
  let place := dir.takeWhile (!colon ·)
  let names := segments (theme.takeWhile (!colon ·))
  if place.head? = some '~' then
    env.home.map fun home => segments home ++ segments place.tail ++ names
  else some (segments place ++ names)

theorem take_lengthToColon (s : CString) : s.take (lengthToColon s) = s.takeWhile (!colon ·) :=
  (List.prefix_iff_eq_take.mp (List.takeWhile_prefix _)).symm

/-- Neither a place at home nor another one outgrows its block. -/
theorem buildThemeDir_ok (dir theme : CString) : ∃ r, env.buildThemeDir dir theme = .ok r ∧
    ∀ full, r = some full → ∃ names, env.themeNames dir theme = some names ∧
      LeadsThrough full names := by
  have atHome : dir.head? = some '~' ↔ (dir.takeWhile (!colon ·)).head? = some '~' := by
    cases dir with
    | nil => rfl
    | cons c rest =>
      by_cases sep : colon c
      · simp only [colon, decide_eq_true_eq] at sep
        simp [sep, colon]
      · simp [sep]
  unfold buildThemeDir themeNames
  dsimp only
  split
  case isTrue home =>
    rw [if_pos (atHome.mp home)]
    obtain ⟨dir, rfl⟩ := List.head?_eq_some_iff.mp home
    have len : lengthToColon ('~' :: dir) - 1 = lengthToColon dir := rfl
    cases env.home with
    | none => exact ⟨none, rfl, by simp⟩
    | some home =>
      dsimp only
      split
      · obtain ⟨full, added, leads⟩ := fullPath_ok
          (1 + home.length + 1 + lengthToColon dir + 1 + lengthToColon theme + 1)
          [(home, home.length), (dir, lengthToColon dir), (theme, lengthToColon theme)]
          (by simp) (by simp; omega)
        refine ⟨some full, ?_, fun _ is => ⟨_, rfl, ?_⟩⟩
        · simpa [addPathElts, len] using congrArg (· >>= fun full => pure (some full)) added
        · obtain rfl := Option.some.inj is
          simpa [take_lengthToColon, colon] using leads
      · exact ⟨none, rfl, by simp⟩
  case isFalse away =>
    rw [if_neg (mt atHome.mpr away)]
    split
    · obtain ⟨full, added, leads⟩ := fullPath_ok
        (1 + 0 + 1 + lengthToColon dir + 1 + lengthToColon theme + 1)
        [(dir, lengthToColon dir), (theme, lengthToColon theme)] (by simp) (by simp; omega)
      refine ⟨some full, ?_, fun _ is => ⟨_, rfl, ?_⟩⟩
      · simpa [addPathElts] using congrArg (· >>= fun full => pure (some full)) added
      · obtain rfl := Option.some.inj is
        simpa [take_lengthToColon] using leads
    · exact ⟨none, rfl, by simp⟩

theorem buildFullname_ok (dir subdir file : CString) :
    ∃ r, env.buildFullname dir subdir file = .ok r ∧ ∀ full, r = some full →
      LeadsThrough full (segments dir ++ segments subdir ++ segments file) := by
  unfold buildFullname
  dsimp only
  split
  · obtain ⟨full, added, leads⟩ := fullPath_ok
      (4 + dir.length + 1 + subdir.length + 1 + file.length + 1)
      [(dir, dir.length), (subdir, subdir.length), (file, file.length)] (by simp) (by simp; omega)
    refine ⟨some full, ?_, fun _ is => ?_⟩
    · simpa [addPathElts] using congrArg (· >>= fun full => pure (some full)) added
    · obtain rfl := Option.some.inj is
      simpa using leads
  · exact ⟨none, rfl, by simp⟩

end Environment

section Inherits

def separates (c : Char) : Bool := xcursorSep c ∨ xcursorWhite c

/-- The names that a line tells, in one string. -/
def joined (names : List CString) : CString := [':'].intercalate names

theorem joined_concat {names : List CString} {name : CString}
    (filled : ∀ name ∈ names, name ≠ []) :
    joined (names ++ [name]) =
      (if joined names = [] then joined names else joined names ++ [':']) ++ name := by
  by_cases none : names = []
  · simp [none, joined]
  · rw [joined, intercalate_concat none, ← joined, if_neg]
    exact mt (intercalate_eq_nil filled).mp none

/-- `names` have been copied, and of one more token as much as `token`. -/
theorem copyTokens_ok {block : Nat} {within : Bool} {names : List CString}
    {token result l : CString}
    (filled : ∀ name ∈ names, name ≠ []) (free : ∀ c ∈ token, separates c = false)
    (inside : within = true ↔ token ≠ []) (so : result = joined (names ++ tokens separates token))
    (room : result.length + l.length + (if within ∨ result = [] then 0 else 1) < block) :
    copyTokens block within result l = .ok (joined (names ++ tokens separates (token ++ l))) := by
  induction l generalizing within names token result with
  | nil =>
    have fit : ¬block < result.length + 1 := by
      rw [List.length_nil] at room
      omega
    rw [copyTokens, fits, if_neg fit, so, List.append_nil]
    rfl
  | cons c l ih =>
    rw [List.length_cons] at room
    by_cases sep : separates c
    · have ends : xcursorSep c ∨ xcursorWhite c := by simpa [separates] using sep
      rw [copyTokens, if_pos ends, tokens_append_cons sep, ← List.append_assoc]
      change _ = Except.ok (joined (names ++ tokens separates token ++ tokens separates ([] ++ l)))
      refine ih (fun name member => ?_) (by simp) (by simp) (by simpa using so) ?_
      · rcases List.mem_append.mp member with before | new
        · exact filled name before
        · exact not_nil_of_mem_tokens new
      · split at room <;> split <;> omega
    · have goesOn : ¬(xcursorSep c ∨ xcursorWhite c) := by simpa [separates] using sep
      rw [copyTokens, if_neg goesOn]
      dsimp only
      have more : ∀ x ∈ token ++ [c], separates x = false := by
        intro x member
        rcases List.mem_append.mp member with before | new
        · exact free x before
        · obtain rfl := List.mem_singleton.mp new
          simpa using sep
      have copied : (if within = true ∨ result = [] then result else result ++ [':']) ++ [c] =
          joined (names ++ tokens separates (token ++ [c])) := by
        rw [tokens_of_free more (by simp)]
        by_cases started : token = []
        · have outside : ¬within = true := fun h => inside.mp h started
          subst started
          rw [tokens_nil, List.append_nil] at so
          simp only [outside, Bool.false_eq_true, false_or, List.nil_append]
          rw [joined_concat filled, so]
        · rw [if_pos (.inl (inside.mpr started)), joined, intercalate_concat_append, so,
            tokens_of_free free started]
          rfl
      have longer : ((if within = true ∨ result = [] then result else result ++ [':']) ++
          [c]).length + l.length < block := by
        rw [List.length_append, List.length_singleton]
        split at room
        · rw [if_pos (by assumption)]
          omega
        · rw [if_neg (by assumption), List.length_append, List.length_singleton]
          omega
      revert copied longer
      generalize (if within = true ∨ result = [] then result else result ++ [':']) ++ [c] = copy
      intro copied longer
      rw [fits, if_neg (by omega), show token ++ c :: l = token ++ [c] ++ l by simp]
      exact ih filled more (by simp) copied (by simpa using longer)

theorem themeInherits_ok (env : Environment) (full : CString) :
    ∃ r, env.themeInherits full = .ok r ∧ ∀ inherits, r = some inherits →
      ∃ file value, env.fopen full = some file ∧
        (linesOf file).findSome? inheritsValue = some value ∧
        inherits = joined (tokens separates value) := by
  unfold Environment.themeInherits
  cases opened : env.fopen full with
  | none => exact ⟨none, rfl, by simp⟩
  | some file =>
    dsimp only
    cases found : (linesOf file).findSome? inheritsValue with
    | none => exact ⟨none, rfl, by simp⟩
    | some value =>
      dsimp only
      split
      · have copied : copyTokens (value.length + 1) false [] value =
            .ok (joined ([] ++ tokens separates ([] ++ value))) :=
          copyTokens_ok (by simp) (by simp) (by simp) rfl (by simp)
        rw [copied]
        exact ⟨_, rfl, fun _ is => ⟨file, value, rfl, found, (Option.some.inj is).symm⟩⟩
      · exact ⟨none, rfl, by simp⟩

theorem rests_joined {names : List CString} (some : names ≠ [])
    (plain : ∀ name ∈ names, ':' ∉ name) :
    (rests colon (joined names)).map (·.takeWhile (!colon ·)) = names := by
  rw [takeWhile_rests, joined]
  exact List.splitOn_intercalate ':' plain some

/-- No string outgrows its block: the places of themes and the files in them are where the library
path and `HOME` say, and what a theme inherits is what its line names, which the loader tells apart
again. -/
theorem theme_strings (env : Environment) :
    (∀ dir theme, ∃ r, env.buildThemeDir dir theme = .ok r ∧ ∀ full, r = some full →
      ∃ names, env.themeNames dir theme = some names ∧ LeadsThrough full names) ∧
    (∀ dir subdir file, ∃ r, env.buildFullname dir subdir file = .ok r ∧ ∀ full, r = some full →
      LeadsThrough full (segments dir ++ segments subdir ++ segments file)) ∧
    ∀ full, ∃ r, env.themeInherits full = .ok r ∧ ∀ inherits, r = some inherits →
      ∃ file value, env.fopen full = some file ∧
        (linesOf file).findSome? inheritsValue = some value ∧
        inherits = joined (tokens separates value) ∧
        (tokens separates value ≠ [] → (∀ name ∈ tokens separates value, ':' ∉ name) →
          (rests colon inherits).map (·.takeWhile (!colon ·)) = tokens separates value) := by
  refine ⟨env.buildThemeDir_ok, env.buildFullname_ok, fun full => ?_⟩
  obtain ⟨r, told, named⟩ := themeInherits_ok env full
  refine ⟨r, told, fun inherits is => ?_⟩
  obtain ⟨file, value, opened, found, rfl⟩ := named inherits is
  exact ⟨file, value, opened, found, rfl, rests_joined⟩

end Inherits

end Miral.XCursor
