import Mathlib.Algebra.Group.Nat.Defs
import Mathlib.Data.List.Basic

/-!
# Numbers in little-endian order

`le k n` is the `k` bytes of `n`, the low one first, and `readLe` reads them back.
-/

namespace LittleEndian

/-- The `k` low bytes of `n`. -/
def le : ℕ → ℕ → List (BitVec 8)
  | 0, _ => []
  | k + 1, n => BitVec.ofNat 8 n :: le k (n / 256)

/-- The number that bytes are. -/
def readLe : List (BitVec 8) → ℕ
  | [] => 0
  | b :: bs => b.toNat + 256 * readLe bs

@[simp] theorem length_le (k n : ℕ) : (le k n).length = k := by
  induction k generalizing n with
  | zero => rfl
  | succ k ih => simp [le, ih]

@[simp] theorem readLe_le (k n : ℕ) : readLe (le k n) = n % 256 ^ k := by
  induction k generalizing n with
  | zero => simp [le, readLe, Nat.mod_one]
  | succ k ih =>
      have hlow : (BitVec.ofNat 8 n).toNat = n % 256 := BitVec.toNat_ofNat n 8
      rw [le, readLe, ih, hlow, Nat.pow_succ', Nat.mod_mul]

/-- Two bytes. -/
theorem readLe_two (n : ℕ) : readLe (le 2 n) = n % 65536 := readLe_le 2 n

/-- Four bytes. -/
theorem readLe_four (n : ℕ) : readLe (le 4 n) = n % 4294967296 := readLe_le 4 n

end LittleEndian
