import Mathlib.Data.Finset.Card
import Mathlib.Data.Nat.Bitwise

/-! A set of small numbers as an array of bytes, one bit for each number. -/
namespace ByteBitmap

variable {n : ℕ}

def getBit (m : Vector UInt8 n) (i : ℕ) (h : i / 8 < n) : Bool :=
  (m[i / 8] >>> UInt8.ofNat (i % 8)) &&& 1 == 1

def setBit (m : Vector UInt8 n) (i : ℕ) (h : i / 8 < n) : Vector UInt8 n :=
  m.set (i / 8) (m[i / 8] ||| 1 <<< UInt8.ofNat (i % 8))

theorem shift_toNat {k : ℕ} (hk : k < 8) : (UInt8.ofNat k).toNat % 8 = k := by
  rw [UInt8.toNat_ofNat_of_lt' (show k < UInt8.size by simp [UInt8.size]; omega)]
  exact Nat.mod_eq_of_lt hk

theorem bit_eq_testBit (x : UInt8) {k : ℕ} (hk : k < 8) :
    ((x >>> UInt8.ofNat k) &&& 1 == 1) = x.toNat.testBit k := by
  have hone : (1 : UInt8).toNat = 1 := rfl
  rw [Bool.eq_iff_iff, beq_iff_eq, ← UInt8.toNat_inj, UInt8.toNat_and, UInt8.toNat_shiftRight,
    shift_toNat hk, hone, Nat.testBit, Nat.and_comm 1]
  simp only [Nat.and_one_is_mod, bne_iff_ne]
  omega

theorem testBit_or_shift (x : UInt8) {j k : ℕ} (hj : j < 8) (hk : k < 8) :
    (x ||| 1 <<< UInt8.ofNat k).toNat.testBit j = (x.toNat.testBit j || decide (k = j)) := by
  have hone : (1 : UInt8).toNat = 1 := rfl
  rw [UInt8.toNat_or, UInt8.toNat_shiftLeft, shift_toNat hk, hone, Nat.testBit_or,
    Nat.testBit_mod_two_pow, Nat.shiftLeft_eq, Nat.one_mul, Nat.testBit_two_pow]
  simp [hj]

theorem getBit_setBit (m : Vector UInt8 n) {i j : ℕ} (hi : i / 8 < n) (hj : j / 8 < n) :
    getBit (setBit m i hi) j hj = (getBit m j hj || decide (i = j)) := by
  have hj8 : j % 8 < 8 := Nat.mod_lt _ (by decide)
  have hi8 : i % 8 < 8 := Nat.mod_lt _ (by decide)
  simp only [getBit, bit_eq_testBit _ hj8, setBit, Vector.getElem_set]
  by_cases hq : i / 8 = j / 8
  · have hij : i % 8 = j % 8 ↔ i = j := by omega
    simp only [hq, if_true, testBit_or_shift _ hj8 hi8, hij]
  · have hij : i ≠ j := fun h => hq (by rw [h])
    simp [hq, hij]

theorem getBit_zero {i : ℕ} (h : i / 8 < n) : getBit (Vector.replicate n 0) i h = false := by
  have h8 : i % 8 < 8 := Nat.mod_lt _ (by decide)
  rw [getBit, bit_eq_testBit _ h8]
  simp

end ByteBitmap
