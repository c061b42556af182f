import Mathlib.Data.Nat.Digits.Defs
import PsyDogeBridge.PodLayout

/-! Signatures in the distinguished encoding of two integers, as BIP 66 demands them in scripts,
and scripts that push byte strings. -/
namespace DerSignature

open PodLayout (Bytes)

/-- The number that the bytes stand for, highest byte first. -/
def bigEndian (b : Bytes) : ℕ := Nat.ofDigits 256 (b.reverse.map UInt8.toNat)

theorem bigEndian_cons (x : UInt8) (b : Bytes) :
    bigEndian (x :: b) = bigEndian b + 256 ^ b.length * x.toNat := by
  rw [bigEndian, List.reverse_cons, List.map_append, Nat.ofDigits_append, List.length_map,
    List.length_reverse, List.map_singleton, Nat.ofDigits_singleton, bigEndian]

theorem bigEndian_lt (b : Bytes) : bigEndian b < 256 ^ b.length := by
  have hlt : bigEndian b < 256 ^ (b.reverse.map UInt8.toNat).length := by
    refine Nat.ofDigits_lt_base_pow_length (by decide) fun x hx => ?_
    obtain ⟨y, -, rfl⟩ := List.mem_map.mp hx
    exact y.toNat_lt
  rwa [List.length_map, List.length_reverse] at hlt

theorem bigEndian_zero_cons (b : Bytes) : bigEndian (0 :: b) = bigEndian b := by
  rw [bigEndian_cons]
  rfl

/-- The first bit is the sign. -/
def NonNegative (b : Bytes) : Prop := ∃ x rest, b = x :: rest ∧ x.toNat < 128

/-- A zero byte stands in front only if the number would be negative without it. -/
def NoSuperfluousZero (b : Bytes) : Prop :=
  ∀ x y rest, b = x :: y :: rest → x = 0 → 128 ≤ y.toNat

/-- The shortest encoding of a number. -/
structure Shortest (b : Bytes) (n : ℕ) : Prop where
  nonNegative : NonNegative b
  value : bigEndian b = n
  least : ∀ b', NonNegative b' → bigEndian b' = n → b.length ≤ b'.length

theorem NonNegative.value_lt {b : Bytes} (h : NonNegative b) :
    bigEndian b < 128 * 256 ^ (b.length - 1) := by
  obtain ⟨x, rest, rfl, hx⟩ := h
  have hrest := bigEndian_lt rest
  have hle : 256 ^ rest.length * x.toNat ≤ 256 ^ rest.length * 127 :=
    Nat.mul_le_mul_left _ (by omega)
  rw [bigEndian_cons, List.length_cons, Nat.add_sub_cancel]
  omega

/-- Without a superfluous zero the number is too large for any shorter encoding. -/
theorem NoSuperfluousZero.value_le {b : Bytes} (h : NoSuperfluousZero b) (hlen : 2 ≤ b.length) :
    128 * 256 ^ (b.length - 2) ≤ bigEndian b := by
  match b with
  | x :: y :: rest =>
    have hlength : (x :: y :: rest).length - 2 = rest.length := rfl
    have hpow : 256 ^ (y :: rest).length = 256 ^ rest.length * 256 := pow_succ _ _
    rw [hlength, bigEndian_cons, bigEndian_cons, hpow]
    by_cases hx : x = 0
    · have hy := Nat.mul_le_mul_left (256 ^ rest.length) (h x y rest rfl hx)
      omega
    · have hpos : 1 ≤ x.toNat := Nat.one_le_iff_ne_zero.mpr fun hzero =>
        hx (UInt8.toNat_inj.mp hzero)
      have hle := Nat.mul_le_mul_left (256 ^ rest.length * 256) hpos
      omega

/-- The rule of BIP 66 says that the encoding is the shortest. -/
theorem shortest_iff {b : Bytes} {n : ℕ} :
    Shortest b n ↔ NonNegative b ∧ bigEndian b = n ∧ NoSuperfluousZero b := by
  constructor
  · intro h
    refine ⟨h.nonNegative, h.value, ?_⟩
    rintro x y rest rfl rfl
    by_contra hy
    -- The rest would do as well.
    have hle := h.least (y :: rest) ⟨y, rest, rfl, by omega⟩
      ((bigEndian_zero_cons _).symm.trans h.value)
    simp at hle
  · rintro ⟨hsign, hvalue, hzero⟩
    refine ⟨hsign, hvalue, ?_⟩
    intro b' hsign' hvalue'
    by_contra hlt
    have hpos : 1 ≤ b'.length := by
      obtain ⟨x, rest, rfl, -⟩ := hsign'
      exact Nat.le_add_left 1 _
    have hlow := hzero.value_le (by omega)
    have hhigh := hsign'.value_lt
    have hmono : 256 ^ (b'.length - 1) ≤ 256 ^ (b.length - 2) :=
      Nat.pow_le_pow_right (by decide) (by omega)
    omega

def readInteger : Bytes → Option (Bytes × Bytes)
  | tag :: len :: rest =>
    if tag = 0x02 ∧ len.toNat < 128 ∧ len.toNat ≤ rest.length then
      some (rest.take len.toNat, rest.drop len.toNat)
    else none
  | _ => none

/-- A sequence of two integers that the length byte covers exactly, and the sighash byte. -/
def readSignature : Bytes → Option (Bytes × Bytes × UInt8)
  | tag :: len :: rest =>
    if tag = 0x30 ∧ len.toNat + 1 = rest.length then do
      let (r, rest) ← readInteger rest
      let (s, rest) ← readInteger rest
      match rest with
      | [hashType] => some (r, s, hashType)
      | _ => none
    else none
  | _ => none

def readPush : Bytes → Option (Bytes × Bytes)
  | op :: rest =>
    if 1 ≤ op.toNat ∧ op.toNat ≤ 75 ∧ op.toNat ≤ rest.length then
      some (rest.take op.toNat, rest.drop op.toNat)
    else none
  | [] => none

def readTwoPushes (script : Bytes) : Option (Bytes × Bytes) := do
  let (a, rest) ← readPush script
  let (b, rest) ← readPush rest
  match rest with
  | [] => some (a, b)
  | _ => none

/-- A signature of `r` and `s` with this sighash byte under the rules of BIP 66. -/
structure Strict (sig : Bytes) (r s : ℕ) (hashType : UInt8) : Prop where
  size : 9 ≤ sig.length ∧ sig.length ≤ 73
  integers : ∃ br bs, readSignature sig = some (br, bs, hashType) ∧ Shortest br r ∧ Shortest bs s

theorem readInteger_encoded {content rest : Bytes} {len : UInt8} (hlen : len.toNat = content.length)
    (hshort : content.length < 128) :
    readInteger (0x02 :: len :: (content ++ rest)) = some (content, rest) := by
  rw [readInteger, if_pos, hlen, List.take_left, List.drop_left]
  refine ⟨rfl, by omega, ?_⟩
  rw [List.length_append]
  omega

theorem readSignature_encoded {r s : Bytes} {lenR lenS len hashType : UInt8}
    (hr : lenR.toNat = r.length) (hs : lenS.toNat = s.length)
    (hlen : len.toNat = r.length + s.length + 4) (hrshort : r.length < 128)
    (hsshort : s.length < 128) :
    readSignature (0x30 :: len :: (0x02 :: lenR :: (r ++ 0x02 :: lenS :: (s ++ [hashType])))) =
      some (r, s, hashType) := by
  have htotal : len.toNat + 1 =
      (0x02 :: lenR :: (r ++ 0x02 :: lenS :: (s ++ [hashType]))).length := by
    simp only [List.length_cons, List.length_append, List.length_nil]
    omega
  rw [readSignature, if_pos ⟨rfl, htotal⟩, readInteger_encoded hr hrshort, Option.bind_eq_bind,
    Option.bind_some]
  dsimp only
  rw [readInteger_encoded hs hsshort, Option.bind_some]

theorem readPush_encoded {op : UInt8} {content rest : Bytes} (hop : op.toNat = content.length)
    (hpos : 1 ≤ content.length) (hle : content.length ≤ 75) :
    readPush (op :: (content ++ rest)) = some (content, rest) := by
  rw [readPush, if_pos, hop, List.take_left, List.drop_left]
  refine ⟨by omega, by omega, ?_⟩
  rw [List.length_append]
  omega

end DerSignature
