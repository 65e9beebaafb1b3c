import Miral.InitialPlacement

/-! The tiles of `TilingWindowManagerPolicy`, one for each application that has shown a window,
and where `update_tiles` puts them. What the policy files under the userdata of an application,
which is also that of its windows, is filed here under its number. -/
namespace Miral

structure TilingWindowManagerPolicyData where
  tile : Rectangle
  oldTile : Rectangle
  deriving DecidableEq, Repr

/-- `MRUTileList`: whose tiles there are, the most recent one last. -/
structure MRUTileList where
  tiles : List Application
  nodup : tiles.Nodup

namespace MRUTileList

def erase (self : MRUTileList) (tile : Application) : MRUTileList where
  tiles := self.tiles.filter (· ≠ tile)
  nodup := self.nodup.filter _

def push (self : MRUTileList) (tile : Application) : MRUTileList where
  tiles := (self.erase tile).tiles ++ [tile]
  nodup := by
    rw [List.nodup_append]
    refine ⟨(self.erase tile).nodup, List.nodup_singleton tile, ?_⟩
    intro a member b single
    obtain rfl := List.mem_singleton.mp single
    simpa [erase] using (List.mem_filter.mp member).2

def count (self : MRUTileList) : Nat := self.tiles.length

/-- The order of `enumerate`. -/
def enumerated (self : MRUTileList) : List Application := self.tiles.reverse

end MRUTileList

/-- The tile `update_tiles` computes for one of `tileCount` tiles. -/
def tileAt (total : Size) (tileCount index : Nat) : Rectangle :=
  if tileCount < 3 then
    let x := total.width * index / tileCount
    let dx := total.width * (index + 1 : Nat) / tileCount - x
    ⟨⟨x, 0⟩, ⟨dx, total.height⟩⟩
  else
    let dx := total.width.tdiv 2
    if index = 0 then ⟨⟨0, 0⟩, ⟨dx, total.height⟩⟩
    else
      let y := total.height * ((index : Int) - 1) / (tileCount - 1 : Nat)
      let dy := total.height / (tileCount - 1 : Nat)
      ⟨⟨dx, y⟩, ⟨dx, dy⟩⟩

/-- The loop over the tile list. -/
def layTiles (total : Size) (tileCount : Nat) :
    Nat → List Application → (Application → TilingWindowManagerPolicyData) →
      Application → TilingWindowManagerPolicyData
  | _, [], data => data
  | index, tile :: rest, data =>
    layTiles total tileCount (index + 1) rest
      (Function.update data tile ⟨tileAt total tileCount index, (data tile).tile⟩)

/-- `update_tiles`, up to the windows. -/
def assignTiles (tiles : MRUTileList) (displays : List Rectangle)
    (data : Application → TilingWindowManagerPolicyData) :
    Application → TilingWindowManagerPolicyData :=
  if tiles.count < 1 ∨ displays.length < 1 then data
  else layTiles (boundingRectangle displays).size tiles.count 0 tiles.enumerated data

section Loop

variable {total : Size} {tileCount : Nat} {a : Application} {order : List Application}

theorem layTiles_other {index : Nat} {data : Application → TilingWindowManagerPolicyData}
    (other : a ∉ order) : layTiles total tileCount index order data a = data a := by
  induction order generalizing index data with
  | nil => rfl
  | cons b rest ih =>
    rw [List.mem_cons, not_or] at other
    rw [layTiles, ih other.2, Function.update_of_ne other.1]

theorem layTiles_at {index i : Nat} {data : Application → TilingWindowManagerPolicyData}
    (nodup : order.Nodup) (here : order[i]? = some a) :
    layTiles total tileCount index order data a =
      ⟨tileAt total tileCount (index + i), (data a).tile⟩ := by
  induction order generalizing index i data with
  | nil => simp at here
  | cons b rest ih =>
    obtain ⟨fresh, distinct⟩ := List.nodup_cons.mp nodup
    rw [layTiles]
    cases i with
    | zero =>
      obtain rfl : b = a := by simpa using here
      rw [layTiles_other fresh, Function.update_self, Nat.add_zero]
    | succ i =>
      rw [List.getElem?_cons_succ] at here
      have ne : a ≠ b := by
        rintro rfl
        exact fresh (List.mem_of_getElem? here)
      rw [ih distinct here, Function.update_of_ne ne, Nat.add_assoc, Nat.add_comm 1 i]

end Loop

namespace Rectangle

variable {r inner : Rectangle} {p : Point}

theorem contains_iff : r.contains inner ↔ r.left ≤ inner.left ∧ inner.right ≤ r.right ∧
    r.top ≤ inner.top ∧ inner.bottom ≤ r.bottom := by
  simp only [contains, Bool.and_eq_true, decide_eq_true_eq, and_assoc]

theorem containsPoint_iff : r.containsPoint p ↔
    r.left ≤ p.x ∧ p.x < r.right ∧ r.top ≤ p.y ∧ p.y < r.bottom := by
  unfold containsPoint
  split
  · simp only [left, right, top, bottom, Bool.false_eq_true, false_iff]
    omega
  · simp only [Bool.and_eq_true, decide_eq_true_eq, and_assoc]

def Apart (r other : Rectangle) : Prop := ∀ p, ¬(r.containsPoint p ∧ other.containsPoint p)

theorem Apart.symm {other : Rectangle} (apart : r.Apart other) : other.Apart r :=
  fun p both => apart p both.symm

theorem apart_of_edges {other : Rectangle} (edges : r.right ≤ other.left ∨ r.bottom ≤ other.top) :
    r.Apart other := by
  intro p both
  rw [containsPoint_iff, containsPoint_iff] at both
  omega

end Rectangle

section Arithmetic

variable {total : Size} {tileCount i j : Nat}

theorem row_le {height : Int} {m : Nat} (pos : 0 < m) (tall : 0 ≤ height) (lt : i < j)
    (le : j ≤ m) : height * i / m + height / m ≤ height * j / m ∧ height * j / m ≤ height := by
  have pos' : (0 : Int) < m := by omega
  constructor
  · calc height * i / m + height / m ≤ (height * i + height) / m :=
          Int.ediv_add_ediv_le_add_ediv pos'
      _ ≤ height * j / m := by
          apply Int.ediv_le_ediv pos'
          have next : height * ((i : Int) + 1) ≤ height * j :=
            Int.mul_le_mul_of_nonneg_left (by omega) tall
          rw [Int.mul_add, Int.mul_one] at next
          exact next
  · calc height * j / m ≤ height * m / m :=
          Int.ediv_le_ediv pos' (Int.mul_le_mul_of_nonneg_left (by omega) tall)
      _ = height := Int.mul_ediv_cancel _ (Int.ne_of_gt pos')

theorem tileAt_few (few : tileCount < 3) (i : Nat) : tileAt total tileCount i =
    ⟨⟨total.width * i / tileCount, 0⟩,
      ⟨total.width * (i + 1 : Nat) / tileCount - total.width * i / tileCount, total.height⟩⟩ := by
  rw [tileAt, if_pos few]

theorem tileAt_first (many : 3 ≤ tileCount) (wide : 0 ≤ total.width) :
    tileAt total tileCount 0 = ⟨⟨0, 0⟩, ⟨total.width / 2, total.height⟩⟩ := by
  rw [tileAt, if_neg (by omega), Int.tdiv_eq_ediv_of_nonneg wide]
  rfl

theorem tileAt_next (many : 3 ≤ tileCount) (wide : 0 ≤ total.width) (i : Nat) :
    tileAt total tileCount (i + 1) =
      ⟨⟨total.width / 2, total.height * i / (tileCount - 1 : Nat)⟩,
        ⟨total.width / 2, total.height / (tileCount - 1 : Nat)⟩⟩ := by
  have shifted : ((i + 1 : Nat) : Int) - 1 = i := by omega
  rw [tileAt, if_neg (by omega), Int.tdiv_eq_ediv_of_nonneg wide]
  dsimp only
  rw [if_neg (Nat.succ_ne_zero i), shifted]

theorem contains_tileAt (wide : 0 ≤ total.width) (tall : 0 ≤ total.height) (lt : i < tileCount) :
    Rectangle.contains ⟨⟨0, 0⟩, total⟩ (tileAt total tileCount i) := by
  rw [Rectangle.contains_iff]
  rcases Nat.lt_or_ge tileCount 3 with few | many
  · rw [tileAt_few few]
    obtain ⟨-, last⟩ := row_le (by omega) wide (Nat.lt_add_one i) lt
    have start : 0 ≤ total.width * i / tileCount :=
      Int.ediv_nonneg (Int.mul_nonneg wide (by omega)) (by omega)
    simp only [Rectangle.left, Rectangle.right, Rectangle.top, Rectangle.bottom]
    omega
  · cases i with
    | zero =>
      rw [tileAt_first many wide]
      simp only [Rectangle.left, Rectangle.right, Rectangle.top, Rectangle.bottom]
      omega
    | succ i =>
      rw [tileAt_next many wide]
      obtain ⟨next, last⟩ := row_le (m := tileCount - 1) (by omega) tall (Nat.lt_succ_self i)
        (by omega)
      have start : 0 ≤ total.height * i / (tileCount - 1 : Nat) :=
        Int.ediv_nonneg (Int.mul_nonneg tall (by omega)) (by omega)
      simp only [Rectangle.left, Rectangle.right, Rectangle.top, Rectangle.bottom]
      omega

theorem apart_tileAt (wide : 0 ≤ total.width) (tall : 0 ≤ total.height) (lt : i < j)
    (inside : j < tileCount) :
    (tileAt total tileCount i).Apart (tileAt total tileCount j) := by
  apply Rectangle.apart_of_edges
  rcases Nat.lt_or_ge tileCount 3 with few | many
  · rw [tileAt_few few, tileAt_few few]
    simp only [Rectangle.left, Rectangle.right, Rectangle.top, Rectangle.bottom]
    obtain rfl : i = 0 := by omega
    obtain rfl : j = 1 := by omega
    rw [Nat.zero_add]
    omega
  · obtain ⟨j, rfl⟩ := Nat.exists_eq_succ_of_ne_zero (Nat.ne_zero_of_lt lt)
    rw [tileAt_next many wide]
    cases i with
    | zero =>
      rw [tileAt_first many wide]
      simp only [Rectangle.left, Rectangle.right]
      omega
    | succ i =>
      rw [tileAt_next many wide]
      obtain ⟨next, -⟩ := row_le (m := tileCount - 1) (by omega) tall (Nat.lt_of_succ_lt_succ lt)
        (by omega)
      simp only [Rectangle.left, Rectangle.right, Rectangle.top, Rectangle.bottom]
      omega

/-- One or two tiles cover everything. -/
theorem covers_tileAt (some : 0 < tileCount) (few : tileCount ≤ 2) (p : Point) :
    Rectangle.containsPoint ⟨⟨0, 0⟩, total⟩ p ↔
      ∃ i < tileCount, (tileAt total tileCount i).containsPoint p := by
  have inside : Rectangle.containsPoint ⟨⟨0, 0⟩, total⟩ p ↔
      0 ≤ p.x ∧ p.x < total.width ∧ 0 ≤ p.y ∧ p.y < total.height := by
    rw [Rectangle.containsPoint_iff]
    simp only [Rectangle.left, Rectangle.right, Rectangle.top, Rectangle.bottom, Int.zero_add]
  have tile (i : Nat) : (tileAt total tileCount i).containsPoint p ↔
      total.width * i / tileCount ≤ p.x ∧ p.x < total.width * (i + 1 : Nat) / tileCount ∧
        0 ≤ p.y ∧ p.y < total.height := by
    rw [tileAt_few (by omega), Rectangle.containsPoint_iff]
    simp only [Rectangle.left, Rectangle.right, Rectangle.top, Rectangle.bottom, Int.zero_add]
    omega
  simp only [inside, tile]
  obtain rfl | rfl : tileCount = 1 ∨ tileCount = 2 := by omega
  · constructor
    · intro all
      exact ⟨0, Nat.one_pos, by omega⟩
    · rintro ⟨i, lt, all⟩
      obtain rfl : i = 0 := by omega
      omega
  · constructor
    · intro all
      rcases Int.lt_or_le p.x (total.width / 2) with left | right
      · exact ⟨0, Nat.two_pos, by omega⟩
      · exact ⟨1, Nat.one_lt_two, by omega⟩
    · rintro ⟨i, lt, all⟩
      obtain rfl | rfl : i = 0 ∨ i = 1 := by omega
      · omega
      · omega

end Arithmetic

/-- The displays reach from the origin; or they start one to the left of it, and halving their
width leaves a rest. -/
def AtOrigin (bounds : Rectangle) (tileCount : Nat) : Prop :=
  bounds.topLeft = ⟨0, 0⟩ ∨
    3 ≤ tileCount ∧ bounds.topLeft = ⟨-1, 0⟩ ∧ bounds.size.width % 2 = 1

/-- All tiles lie inside the displays if and only if these are where the tiles are. -/
theorem contains_tiles_iff {bounds : Rectangle} {tileCount : Nat} (some : 0 < tileCount)
    (wide : 0 ≤ bounds.size.width) (tall : 0 ≤ bounds.size.height) :
    (∀ i < tileCount, bounds.contains (tileAt bounds.size tileCount i)) ↔
      AtOrigin bounds tileCount := by
  have corner : bounds.topLeft = ⟨bounds.left, bounds.top⟩ := rfl
  have right : bounds.right = bounds.left + bounds.size.width := rfl
  have bottom : bounds.bottom = bounds.top + bounds.size.height := rfl
  simp only [Rectangle.contains_iff, right, bottom, AtOrigin, corner, Point.mk.injEq]
  constructor
  · intro inside
    rcases Nat.lt_or_ge tileCount 3 with few | many
    · obtain ⟨left, -, top, low⟩ := inside 0 some
      obtain ⟨-, far, -, -⟩ := inside (tileCount - 1) (by omega)
      rw [tileAt_few few] at left top low far
      simp only [Rectangle.left, Rectangle.right, Rectangle.top, Rectangle.bottom] at left top low far ⊢
      obtain rfl | rfl : tileCount = 1 ∨ tileCount = 2 := by omega
      · omega
      · omega
    · obtain ⟨left, -, top, low⟩ := inside 0 some
      obtain ⟨-, far, -, -⟩ := inside (0 + 1) (by omega)
      rw [tileAt_first many wide] at left top low
      rw [tileAt_next many wide] at far
      simp only [Rectangle.left, Rectangle.right, Rectangle.top, Rectangle.bottom] at left top low far ⊢
      omega
  · intro origin i lt
    have within := contains_tileAt wide tall lt
    rw [Rectangle.contains_iff] at within
    simp only [Rectangle.left, Rectangle.right, Rectangle.top, Rectangle.bottom] at within origin ⊢
    rcases origin with ⟨x, y⟩ | ⟨many, ⟨x, y⟩, odd⟩
    · omega
    · cases i with
      | zero =>
        rw [tileAt_first many wide] at within ⊢
        dsimp only at within ⊢
        omega
      | succ i =>
        rw [tileAt_next many wide] at within ⊢
        dsimp only at within ⊢
        omega

theorem width_foldl_hull {r : Rectangle} {rs : List Rectangle} (wide : 0 ≤ r.size.width) :
    0 ≤ (rs.foldl Rectangle.hull r).size.width := by
  induction rs generalizing r with
  | nil => exact wide
  | cons d rest ih =>
    apply ih
    have both : (r.hull d).size.width = max r.right d.right - min r.left d.left := rfl
    have edge : r.right = r.left + r.size.width := rfl
    omega

/-- The tiles lie inside the displays without overlapping, and two fill them, if and only if the
displays have their top left corner at the origin. -/
theorem tiles_partition (tiles : MRUTileList) {displays : List Rectangle}
    (data : Application → TilingWindowManagerPolicyData) (some : 1 ≤ tiles.count)
    (shown : displays ≠ []) (wide : ∀ d ∈ displays, 0 ≤ d.size.width)
    (tall : tiles.count ≤ (boundingRectangle displays).size.height) :
    let tile a := (assignTiles tiles displays data a).tile
    ((∀ a ∈ tiles.tiles, ∀ b ∈ tiles.tiles, a ≠ b → (tile a).Apart (tile b)) ∧
      (∀ a ∈ tiles.tiles, (boundingRectangle displays).contains (tile a)) ∧
      (tiles.count ≤ 2 → ∀ p, (boundingRectangle displays).containsPoint p ↔
        ∃ a ∈ tiles.tiles, (tile a).containsPoint p)) ↔
    AtOrigin (boundingRectangle displays) tiles.count := by
  have wide' : 0 ≤ (boundingRectangle displays).size.width := by
    cases displays with
    | nil => contradiction
    | cons d rest => exact width_foldl_hull (wide d List.mem_cons_self)
  have assigned : assignTiles tiles displays data =
      layTiles (boundingRectangle displays).size tiles.count 0 tiles.enumerated data := by
    rw [assignTiles, if_neg]
    have long := List.length_pos_iff.mpr shown
    omega
  have nodup : tiles.enumerated.Nodup := List.nodup_reverse.mpr tiles.nodup
  have length : tiles.enumerated.length = tiles.count := List.length_reverse
  dsimp only
  rw [assigned]
  generalize boundingRectangle displays = bounds at *
  have place (a : Application) (member : a ∈ tiles.tiles) :
      ∃ i < tiles.count, tiles.enumerated[i]? = Option.some a := by
    obtain ⟨i, lt, here⟩ := List.getElem_of_mem (List.mem_reverse.mpr member)
    exact ⟨i, length ▸ lt, List.getElem?_eq_some_iff.mpr ⟨lt, here⟩⟩
  have at' (a : Application) (i : Nat) (here : tiles.enumerated[i]? = Option.some a) :
      (layTiles bounds.size tiles.count 0 tiles.enumerated data a).tile =
        tileAt bounds.size tiles.count i := by
    rw [layTiles_at nodup here, Nat.zero_add]
  have owner (i : Nat) (lt : i < tiles.count) :
      ∃ a ∈ tiles.tiles, tiles.enumerated[i]? = Option.some a := by
    have here := List.getElem?_eq_getElem (length.symm ▸ lt)
    exact ⟨_, List.mem_reverse.mp (List.mem_of_getElem? here), here⟩
  have inside : (∀ a ∈ tiles.tiles, bounds.contains
      (layTiles bounds.size tiles.count 0 tiles.enumerated data a).tile) ↔
        AtOrigin bounds tiles.count := by
    rw [← contains_tiles_iff (by omega) wide' (by omega)]
    constructor
    · intro all i lt
      obtain ⟨a, member, here⟩ := owner i lt
      exact at' a i here ▸ all a member
    · intro all a member
      obtain ⟨i, lt, here⟩ := place a member
      exact at' a i here ▸ all i lt
  constructor
  · intro parts
    exact inside.mp parts.2.1
  · intro origin
    refine ⟨fun a left b right ne => ?_, inside.mpr origin, fun few p => ?_⟩
    · obtain ⟨i, lt, here⟩ := place a left
      obtain ⟨j, lt', there⟩ := place b right
      rw [at' a i here, at' b j there]
      rcases Nat.lt_trichotomy i j with before | same | after
      · exact apart_tileAt wide' (by omega) before lt'
      · subst same
        exact absurd (Option.some.inj (here.symm.trans there)) ne
      · exact (apart_tileAt wide' (by omega) after lt).symm
    · have corner : bounds = ⟨⟨0, 0⟩, bounds.size⟩ := by
        rcases origin with zero | ⟨many, -⟩
        · rw [← zero]
        · omega
      rw [corner, covers_tileAt (by omega) few p]
      constructor
      · rintro ⟨i, lt, covers⟩
        obtain ⟨a, member, here⟩ := owner i lt
        exact ⟨a, member, at' a i here ▸ covers⟩
      · rintro ⟨a, member, covers⟩
        obtain ⟨i, lt, here⟩ := place a member
        exact ⟨i, lt, at' a i here ▸ covers⟩

/-- One display, to the right of the origin, and one tile. -/
theorem tiles_partition_fails :
    ¬∀ (tiles : MRUTileList) (displays : List Rectangle)
      (data : Application → TilingWindowManagerPolicyData), 1 ≤ tiles.count → displays ≠ [] →
      (∀ d ∈ displays, 0 ≤ d.size.width) →
      tiles.count ≤ (boundingRectangle displays).size.height →
      ∀ a ∈ tiles.tiles,
        (boundingRectangle displays).contains (assignTiles tiles displays data a).tile := by
  intro claim
  have inside := claim ⟨[1], List.nodup_singleton 1⟩ [⟨⟨640, 0⟩, ⟨640, 480⟩⟩]
    (fun _ => ⟨default, default⟩) (by decide) (by decide) (by decide) (by decide) 1 (by decide)
  exact absurd inside (by decide)

theorem tiles_partition_three : (boundingRectangle [⟨⟨0, 0⟩, ⟨640, 480⟩⟩]).contains
    (assignTiles ⟨[1, 2, 3], by decide⟩ [⟨⟨0, 0⟩, ⟨640, 480⟩⟩]
      (fun _ => ⟨default, default⟩) 2).tile := by
  obtain ⟨-, inside, -⟩ := (tiles_partition ⟨[1, 2, 3], by decide⟩ (fun _ => ⟨default, default⟩)
    (by decide) (show [(⟨⟨0, 0⟩, ⟨640, 480⟩⟩ : Rectangle)] ≠ [] by simp) (by decide)
    (by decide)).mpr (.inl rfl)
  exact inside 2 (by decide)

end Miral
