import Mathlib.Data.Nat.Bitwise
import PsyDogeBridge.DerSignature

/-! The script that spends an output with a signature and a compressed public key. -/
namespace SignatureScript

open PodLayout DerSignature

structure PsyCompressedSecp256K1Signature where
  publicKey : Vector UInt8 33
  signature : Vector UInt8 64

/-- The assertion on the length is `none`. -/
def u256ToDer (u256 : Bytes) : Option Bytes :=
  if u256.length = 32 then
    if u256.headD 0 &&& 0x80 ≠ 0 then
      some ([0x02] ++ [UInt8.ofNat (u256.length + 1)] ++ [0] ++ u256)
    else some ([0x02] ++ [UInt8.ofNat u256.length] ++ u256)
  else none

namespace PsyCompressedSecp256K1Signature

def toBtcScript (self : PsyCompressedSecp256K1Signature) : Option Bytes := do
  let r ← u256ToDer (slice self.signature.toList 0 32)
  let s ← u256ToDer (slice self.signature.toList 32 32)
  let combinedRsLength := UInt8.ofNat (r.length + s.length)
  let sigStackRaw := [combinedRsLength + 3, 0x30, combinedRsLength] ++ r ++ s ++ [0x01]
  some (sigStackRaw ++ [0x21] ++ self.publicKey.toList)

def r (self : PsyCompressedSecp256K1Signature) : ℕ := bigEndian (slice self.signature.toList 0 32)

def s (self : PsyCompressedSecp256K1Signature) : ℕ := bigEndian (slice self.signature.toList 32 32)

end PsyCompressedSecp256K1Signature

section Integers

variable {b : Bytes}

def derContent (b : Bytes) : Bytes := if b.headD 0 &&& 0x80 ≠ 0 then 0 :: b else b

theorem sign_bit (x : UInt8) : x &&& 0x80 ≠ 0 ↔ 128 ≤ x.toNat := by
  have hlt := x.toNat_lt
  rw [ne_eq, ← UInt8.toNat_inj, UInt8.toNat_and]
  change ¬ x.toNat &&& 2 ^ 7 = 0 ↔ _
  rw [Nat.and_two_pow, Nat.testBit_eq_decide_div_mod_eq]
  by_cases hbit : x.toNat / 2 ^ 7 % 2 = 1
  · rw [decide_eq_true hbit]
    exact iff_of_true (by decide) (by omega)
  · rw [decide_eq_false hbit]
    exact iff_of_false (by decide) (by omega)

theorem derContent_length (hb : b.length = 32) :
    32 ≤ (derContent b).length ∧ (derContent b).length ≤ 33 := by
  rw [derContent]
  split
  · rw [List.length_cons]
    omega
  · omega

theorem derContent_value : bigEndian (derContent b) = bigEndian b := by
  rw [derContent]
  split
  · exact bigEndian_zero_cons b
  · rfl

theorem u256ToDer_eq (hb : b.length = 32) :
    u256ToDer b = some (0x02 :: UInt8.ofNat (derContent b).length :: derContent b) := by
  rw [u256ToDer, if_pos hb, derContent]
  split
  · rfl
  · rfl

theorem derContent_nonNegative (hb : b.length = 32) : NonNegative (derContent b) := by
  match b with
  | x :: rest =>
    rw [derContent, List.headD_cons]
    by_cases hsign : x &&& 0x80 ≠ 0
    · rw [if_pos hsign]
      exact ⟨0, x :: rest, rfl, by decide⟩
    · rw [if_neg hsign]
      exact ⟨x, rest, rfl, Nat.lt_of_not_le (mt (sign_bit x).mpr hsign)⟩

/-- Leading zero bytes are kept, so that the encoding is the shortest only of large numbers. -/
theorem derContent_shortest_iff (hb : b.length = 32) :
    Shortest (derContent b) (bigEndian b) ↔ 2 ^ 247 ≤ bigEndian b := by
  rw [shortest_iff, and_iff_right (derContent_nonNegative hb), and_iff_right derContent_value]
  match b with
  | x :: y :: rest =>
    have hrest : rest.length = 30 := by simpa using hb
    have hvalue : bigEndian (x :: y :: rest) =
        bigEndian rest + 256 ^ 30 * y.toNat + 256 ^ 31 * x.toNat := by
      rw [bigEndian_cons, bigEndian_cons, List.length_cons, hrest]
    have hlow : bigEndian rest < 256 ^ 30 := hrest ▸ bigEndian_lt rest
    rw [derContent, List.headD_cons, hvalue]
    by_cases hsign : x &&& 0x80 ≠ 0
    · -- The zero byte in front is needed.
      have hx := (sign_bit x).mp hsign
      rw [if_pos hsign]
      refine iff_of_true ?_ (by omega)
      intro x' y' rest' heq _
      rw [List.cons.injEq, List.cons.injEq] at heq
      rw [← heq.2.1]
      exact hx
    · rw [if_neg hsign]
      constructor
      · intro hzero
        by_cases hx : x = 0
        · have hy := hzero x y rest rfl hx
          omega
        · have hpos : x.toNat ≠ 0 := fun h => hx (UInt8.toNat_inj.mp h)
          omega
      · intro hle x' y' rest' heq hx
        rw [List.cons.injEq, List.cons.injEq] at heq
        rw [← heq.1] at hx
        have hzero : x.toNat = 0 := by rw [hx]; rfl
        rw [← heq.2.1]
        omega

end Integers

section Script

variable (self : PsyCompressedSecp256K1Signature)

theorem half_length (off : ℕ) (h : off + 32 ≤ 64) :
    (slice self.signature.toList off 32).length = 32 :=
  slice_length (by rw [Vector.length_toList]; exact h)

def pushedSignature (r s : Bytes) : Bytes :=
  0x30 :: UInt8.ofNat (r.length + s.length + 4) :: (0x02 :: UInt8.ofNat r.length ::
    (r ++ 0x02 :: UInt8.ofNat s.length :: (s ++ [0x01])))

theorem pushedSignature_length (r s : Bytes) :
    (pushedSignature r s).length = r.length + s.length + 7 := by
  simp only [pushedSignature, List.length_cons, List.length_append, List.length_nil]
  omega

theorem ofNat_toNat {n : ℕ} (hn : n < 256) : (UInt8.ofNat n).toNat = n := by
  rw [UInt8.toNat_ofNat']
  exact Nat.mod_eq_of_lt hn

theorem toBtcScript_eq (r s : Bytes) (hr : derContent (slice self.signature.toList 0 32) = r)
    (hs : derContent (slice self.signature.toList 32 32) = s) :
    self.toBtcScript = some (UInt8.ofNat (pushedSignature r s).length ::
      (pushedSignature r s ++ 0x21 :: (self.publicKey.toList ++ []))) := by
  have hlen : (0x02 :: UInt8.ofNat r.length :: r).length +
      (0x02 :: UInt8.ofNat s.length :: s).length = r.length + s.length + 4 := by
    simp only [List.length_cons]
    omega
  have hop : UInt8.ofNat (r.length + s.length + 4) + 3 = UInt8.ofNat (r.length + s.length + 7) :=
    (UInt8.ofNat_add _ _).symm
  rw [PsyCompressedSecp256K1Signature.toBtcScript, u256ToDer_eq (half_length self 0 (by decide)),
    u256ToDer_eq (half_length self 32 (by decide)), hr, hs]
  simp only [Option.bind_eq_bind, Option.bind_some, hlen, hop, pushedSignature_length]
  simp [pushedSignature]

/-- The script always is two pushes, of a signature that reads back as two integers with the
sighash byte `1`, and of the key. -/
theorem toBtcScript_reads :
    ∃ script sig, self.toBtcScript = some script ∧
      readTwoPushes script = some (sig, self.publicKey.toList) ∧
      9 ≤ sig.length ∧ sig.length ≤ 73 ∧
      readSignature sig = some (derContent (slice self.signature.toList 0 32),
        derContent (slice self.signature.toList 32 32), 0x01) := by
  obtain ⟨hr, hr'⟩ := derContent_length (half_length self 0 (by decide))
  obtain ⟨hs, hs'⟩ := derContent_length (half_length self 32 (by decide))
  have hscript := toBtcScript_eq self _ _ rfl rfl
  generalize derContent (slice self.signature.toList 0 32) = r at *
  generalize derContent (slice self.signature.toList 32 32) = s at *
  have hlen := pushedSignature_length r s
  have hkey : (0x21 : UInt8).toNat = self.publicKey.toList.length := Vector.length_toList.symm
  have hkeyLength : self.publicKey.toList.length = 33 := Vector.length_toList
  refine ⟨_, pushedSignature r s, hscript, ?_, by omega, by omega, ?_⟩
  · rw [readTwoPushes, readPush_encoded (ofNat_toNat (by omega)) (by omega) (by omega),
      Option.bind_eq_bind, Option.bind_some]
    dsimp only
    rw [readPush_encoded hkey (by omega) (by omega), Option.bind_some]
  · exact readSignature_encoded (ofNat_toNat (by omega)) (ofNat_toNat (by omega))
      (ofNat_toNat (by omega)) (by omega) (by omega)

/-- The script is a push of a strict signature of `r` and `s` with a sighash byte and a push of the
key exactly if both integers need at least 248 bits with their sign. -/
theorem script_strict_iff :
    (∃ script sig hashType, self.toBtcScript = some script ∧
      readTwoPushes script = some (sig, self.publicKey.toList) ∧
      Strict sig self.r self.s hashType) ↔ 2 ^ 247 ≤ self.r ∧ 2 ^ 247 ≤ self.s := by
  obtain ⟨script, sig, hscript, hpushes, hlow, hhigh, hread⟩ := toBtcScript_reads self
  have hr := derContent_shortest_iff (half_length self 0 (by decide))
  have hs := derContent_shortest_iff (half_length self 32 (by decide))
  constructor
  · rintro ⟨script', sig', hashType, hscript', hpushes', hstrict⟩
    obtain rfl : script = script' := Option.some.inj (hscript.symm.trans hscript')
    obtain ⟨rfl, -⟩ := Prod.mk.inj (Option.some.inj (hpushes.symm.trans hpushes'))
    obtain ⟨br, bs, hread', hbr, hbs⟩ := hstrict.integers
    obtain ⟨rfl, hrest⟩ := Prod.mk.inj (Option.some.inj (hread.symm.trans hread'))
    obtain ⟨rfl, -⟩ := Prod.mk.inj hrest
    exact ⟨hr.mp hbr, hs.mp hbs⟩
  · rintro ⟨hrlarge, hslarge⟩
    exact ⟨script, sig, 0x01, hscript, hpushes, ⟨hlow, hhigh⟩, _, _, hread, hr.mpr hrlarge,
      hs.mpr hslarge⟩

def smallSignature : PsyCompressedSecp256K1Signature where
  publicKey := Vector.replicate 33 2
  signature := Vector.ofFn fun i => if i.val % 32 = 31 then 1 else 0

/-- They are pushed with 31 zero bytes in front, which is not the shortest form. -/
theorem smallSignature_not_strict :
    ∃ script sig, smallSignature.toBtcScript = some script ∧
      readTwoPushes script = some (sig, smallSignature.publicKey.toList) ∧
      readSignature sig = some (List.replicate 31 0 ++ [1], List.replicate 31 0 ++ [1], 0x01) ∧
      ¬ Shortest (List.replicate 31 0 ++ [1]) smallSignature.r ∧
      ∀ r s hashType, Strict sig r s hashType → False := by
  obtain ⟨script, sig, hscript, hpushes, -, -, hread⟩ := toBtcScript_reads smallSignature
  have hone : slice smallSignature.signature.toList 0 32 = List.replicate 31 0 ++ [1] := by decide
  have htwo : slice smallSignature.signature.toList 32 32 = List.replicate 31 0 ++ [1] := by decide
  have hcontent : derContent (List.replicate 31 0 ++ [1]) = List.replicate 31 0 ++ [1] := by decide
  rw [hone, htwo, hcontent] at hread
  have hzero : ¬ NoSuperfluousZero (List.replicate 31 0 ++ [1]) := by
    intro h
    exact absurd (h 0 0 (List.replicate 29 0 ++ [1]) rfl rfl) (by decide)
  refine ⟨script, sig, hscript, hpushes, hread, fun h => hzero (shortest_iff.mp h).2.2, ?_⟩
  intro r s hashType hstrict
  obtain ⟨br, bs, hread', hbr, -⟩ := hstrict.integers
  obtain ⟨rfl, -⟩ := Prod.mk.inj (Option.some.inj (hread.symm.trans hread'))
  exact hzero (shortest_iff.mp hbr).2.2

end Script

end SignatureScript
