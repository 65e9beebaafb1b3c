import Mathlib.Data.List.Infix
import Mathlib.Data.List.Forall2

/-! Files that are read by position: what it means that a file has some bytes at a place, and
the little-endian words of four bytes among them. -/
namespace ByteFile

variable {file a b : List UInt8} {pos : Nat} {w : UInt32} {ws vs : List UInt32}

/-- The file has these bytes from `pos` on. -/
def Has (file : List UInt8) (pos : Nat) (bytes : List UInt8) : Prop := bytes <+: file.drop pos

instance : Decidable (Has file pos a) := inferInstanceAs (Decidable (_ <+: _))

@[simp] theorem has_nil : Has file pos [] := List.nil_prefix

theorem has_append : Has file pos (a ++ b) ↔ Has file pos a ∧ Has file (pos + a.length) b := by
  unfold Has
  rw [← List.drop_drop]
  constructor
  · rintro ⟨rest, eq⟩
    rw [← eq, List.append_assoc, List.drop_left]
    exact ⟨List.prefix_append .., List.prefix_append ..⟩
  · rintro ⟨⟨rest, eq⟩, after⟩
    rw [← eq, List.drop_left] at after
    rw [← eq]
    exact (List.prefix_append_right_inj a).mpr after

def bytesOf (w : UInt32) : List UInt8 :=
  [.ofNat w.toNat, .ofNat (w.toNat / 256), .ofNat (w.toNat / 65536), .ofNat (w.toNat / 16777216)]

def ofBytes (b₀ b₁ b₂ b₃ : UInt8) : UInt32 :=
  .ofNat (b₀.toNat + 256 * b₁.toNat + 65536 * b₂.toNat + 16777216 * b₃.toNat)

def wordAt (file : List UInt8) (pos : Nat) : Option UInt32 :=
  match file.drop pos with
  | b₀ :: b₁ :: b₂ :: b₃ :: _ => some (ofBytes b₀ b₁ b₂ b₃)
  | _ => none

@[simp] theorem length_bytesOf : (bytesOf w).length = 4 := rfl

theorem ofBytes_bytesOf (w : UInt32) : ofBytes (.ofNat w.toNat) (.ofNat (w.toNat / 256))
    (.ofNat (w.toNat / 65536)) (.ofNat (w.toNat / 16777216)) = w := by
  have small := w.toNat_lt
  apply UInt32.toNat_inj.mp
  simp only [ofBytes, UInt32.toNat_ofNat', UInt8.toNat_ofNat']
  omega

theorem bytesOf_ofBytes (b₀ b₁ b₂ b₃ : UInt8) :
    bytesOf (ofBytes b₀ b₁ b₂ b₃) = [b₀, b₁, b₂, b₃] := by
  have h₀ := b₀.toNat_lt
  have h₁ := b₁.toNat_lt
  have h₂ := b₂.toNat_lt
  have h₃ := b₃.toNat_lt
  simp only [bytesOf, ofBytes, UInt32.toNat_ofNat', List.cons.injEq, ← UInt8.toNat_inj,
    UInt8.toNat_ofNat', and_true]
  omega

theorem wordAt_eq_some : wordAt file pos = some w ↔ Has file pos (bytesOf w) := by
  unfold wordAt Has
  constructor
  · intro found
    split at found
    · rename_i b₀ b₁ b₂ b₃ rest eq
      obtain rfl := Option.some.inj found
      rw [bytesOf_ofBytes, eq]
      exact ⟨rest, rfl⟩
    · contradiction
  · rintro ⟨rest, eq⟩
    rw [← eq]
    exact congrArg some (ofBytes_bytesOf w)

/-- The file has these words from `pos` on. -/
def HasWords (file : List UInt8) (pos : Nat) (ws : List UInt32) : Prop :=
  Has file pos (ws.flatMap bytesOf)

theorem length_flatMap_bytesOf : (ws.flatMap bytesOf).length = 4 * ws.length := by
  induction ws with
  | nil => rfl
  | cons w ws ih =>
    rw [List.flatMap_cons, List.length_append, ih, length_bytesOf, List.length_cons]
    omega

@[simp] theorem hasWords_nil : HasWords file pos [] := has_nil

theorem hasWords_cons : HasWords file pos (w :: ws) ↔
    wordAt file pos = some w ∧ HasWords file (pos + 4) ws := by
  rw [HasWords, List.flatMap_cons, has_append, ← wordAt_eq_some]
  rfl

theorem hasWords_append : HasWords file pos (vs ++ ws) ↔
    HasWords file pos vs ∧ HasWords file (pos + 4 * vs.length) ws := by
  rw [HasWords, List.flatMap_append, has_append, length_flatMap_bytesOf]
  rfl

theorem HasWords.unique (first : HasWords file pos vs) (second : HasWords file pos ws)
    (same : vs.length = ws.length) : vs = ws := by
  induction vs generalizing pos ws with
  | nil => exact (List.length_eq_zero_iff.mp same.symm).symm
  | cons v vs ih =>
    cases ws with
    | nil => contradiction
    | cons w ws =>
      rw [hasWords_cons] at first second
      obtain rfl := Option.some.inj (first.1.symm.trans second.1)
      rw [ih first.2 second.2 (Nat.succ.inj same)]

end ByteFile
