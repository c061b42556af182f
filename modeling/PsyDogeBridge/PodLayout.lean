import Mathlib.Data.List.Basic
import Mathlib.Data.Nat.ModEq
import Mathlib.Logic.Equiv.Defs
import Mathlib.Tactic.Ring
import Mathlib.Tactic.NormNum

/-! Plain-old-data layouts: a type whose values are exactly the byte strings of one length.
Integers are little-endian and a record is the concatenation of its fields, in order and
without padding, so a layout of a record is a layout of the product of its field types. -/
namespace PodLayout

abbrev Bytes := List UInt8

def leBytes : ℕ → ℕ → Bytes
  | 0, _ => []
  | width + 1, n => UInt8.ofNat n :: leBytes width (n / 256)

def leValue : Bytes → ℕ
  | [] => 0
  | b :: bs => b.toNat + 256 * leValue bs

@[simp] theorem leBytes_length (width n : ℕ) : (leBytes width n).length = width := by
  induction width generalizing n with
  | zero => rfl
  | succ width ih => simp [leBytes, ih]

theorem leValue_leBytes (width n : ℕ) : leValue (leBytes width n) = n % 256 ^ width := by
  induction width generalizing n with
  | zero => simp [leBytes, leValue, Nat.mod_one]
  | succ width ih =>
    have hb : (UInt8.ofNat n).toNat = n % 256 := UInt8.toNat_ofNat'
    rw [leBytes, leValue, ih, hb, pow_succ', Nat.mod_mul]

theorem leValue_lt (l : Bytes) : leValue l < 256 ^ l.length := by
  induction l with
  | nil => simp [leValue]
  | cons b bs ih =>
    have hb := b.toNat_lt
    simp only [leValue, List.length_cons, pow_succ]
    omega

theorem leBytes_leValue (l : Bytes) : leBytes l.length (leValue l) = l := by
  induction l with
  | nil => rfl
  | cons b bs ih =>
    have hb := b.toNat_lt
    have hq : (b.toNat + 256 * leValue bs) / 256 = leValue bs := by omega
    have hr : UInt8.ofNat (b.toNat + 256 * leValue bs) = b := by
      apply UInt8.toNat_inj.mp
      simp only [UInt8.toNat_ofNat']
      omega
    simp only [List.length_cons, leBytes, leValue, hq, hr, ih]

/-- A layout: encoding and decoding are mutually inverse on strings of the layout's size.
Decoding is total; what it gives on a string of another size is never used. -/
structure Pod (α : Type) where
  size : ℕ
  encode : α → Bytes
  decode : Bytes → α
  encode_length : ∀ a, (encode a).length = size
  decode_encode : ∀ a, decode (encode a) = a
  encode_decode : ∀ l, l.length = size → encode (decode l) = l

namespace Pod

variable {α β : Type}

attribute [simp] encode_length decode_encode

theorem encode_injective (p : Pod α) : Function.Injective p.encode := by
  intro a b h
  rw [← p.decode_encode a, h, p.decode_encode]

@[simp] theorem encode_inj (p : Pod α) {a b : α} : p.encode a = p.encode b ↔ a = b :=
  p.encode_injective.eq_iff

def read (p : Pod α) (l : Bytes) : Option α :=
  if l.length = p.size then some (p.decode l) else none

@[simp] theorem read_encode (p : Pod α) (a : α) : p.read (p.encode a) = some a := by
  simp [read]

theorem read_eq_some {p : Pod α} {l : Bytes} {a : α} :
    p.read l = some a ↔ l = p.encode a := by
  constructor
  · intro h
    unfold read at h
    split at h
    · next hl =>
      rw [← Option.some.inj h, p.encode_decode l hl]
    · cases h
  · rintro rfl
    exact p.read_encode a

def u8 : Pod UInt8 where
  size := 1
  encode b := [b]
  decode l := l.headD 0
  encode_length _ := rfl
  decode_encode _ := rfl
  encode_decode l h := by
    obtain ⟨b, rfl⟩ := List.length_eq_one_iff.mp h
    rfl

def u16 : Pod UInt16 where
  size := 2
  encode n := leBytes 2 n.toNat
  decode l := UInt16.ofNat (leValue l)
  encode_length _ := leBytes_length _ _
  decode_encode n := by
    have hn : n.toNat < 256 ^ 2 := n.toNat_lt
    rw [leValue_leBytes, Nat.mod_eq_of_lt hn, UInt16.ofNat_toNat]
  encode_decode l h := by
    have hl := leValue_lt l
    rw [h] at hl
    rw [UInt16.toNat_ofNat_of_lt' hl, ← h, leBytes_leValue]

def u32 : Pod UInt32 where
  size := 4
  encode n := leBytes 4 n.toNat
  decode l := UInt32.ofNat (leValue l)
  encode_length _ := leBytes_length _ _
  decode_encode n := by
    have hn : n.toNat < 256 ^ 4 := n.toNat_lt
    rw [leValue_leBytes, Nat.mod_eq_of_lt hn, UInt32.ofNat_toNat]
  encode_decode l h := by
    have hl := leValue_lt l
    rw [h] at hl
    rw [UInt32.toNat_ofNat_of_lt' hl, ← h, leBytes_leValue]

theorem leValue_u32 (n : UInt32) : leValue (u32.encode n) = n.toNat := by
  change leValue (leBytes 4 n.toNat) = n.toNat
  rw [leValue_leBytes]
  exact Nat.mod_eq_of_lt n.toNat_lt

def u64 : Pod UInt64 where
  size := 8
  encode n := leBytes 8 n.toNat
  decode l := UInt64.ofNat (leValue l)
  encode_length _ := leBytes_length _ _
  decode_encode n := by
    have hn : n.toNat < 256 ^ 8 := n.toNat_lt
    rw [leValue_leBytes, Nat.mod_eq_of_lt hn, UInt64.ofNat_toNat]
  encode_decode l h := by
    have hl := leValue_lt l
    rw [h] at hl
    rw [UInt64.toNat_ofNat_of_lt' hl, ← h, leBytes_leValue]

theorem leValue_u64 (n : UInt64) : leValue (u64.encode n) = n.toNat := by
  change leValue (leBytes 8 n.toNat) = n.toNat
  rw [leValue_leBytes]
  exact Nat.mod_eq_of_lt n.toNat_lt

def prod (p : Pod α) (q : Pod β) : Pod (α × β) where
  size := p.size + q.size
  encode x := p.encode x.1 ++ q.encode x.2
  decode l := (p.decode (l.take p.size), q.decode (l.drop p.size))
  encode_length x := by simp
  decode_encode x := by
    have h := p.encode_length x.1
    simp [List.take_left' h, List.drop_left' h]
  encode_decode l h := by
    have ht : (l.take p.size).length = p.size := by simp [h]
    have hd : (l.drop p.size).length = q.size := by simp [h]
    simp only [p.encode_decode _ ht, q.encode_decode _ hd, List.take_append_drop]

def record (p : Pod α) (e : β ≃ α) : Pod β where
  size := p.size
  encode b := p.encode (e b)
  decode l := e.symm (p.decode l)
  encode_length b := p.encode_length _
  decode_encode b := by simp
  encode_decode l h := by simp [p.encode_decode l h]

def block (s : ℕ) (l : Bytes) (i : ℕ) : Bytes := (l.drop (i * s)).take s

theorem block_flatMap (p : Pod α) (xs : List α) (i : ℕ) (hi : i < xs.length) :
    block p.size (xs.flatMap p.encode) i = p.encode xs[i] := by
  induction xs generalizing i with
  | nil => simp at hi
  | cons x xs ih =>
    have hx := p.encode_length x
    cases i with
    | zero => simp [block, List.take_left' hx]
    | succ i =>
      have hd : (i + 1) * p.size = p.size + i * p.size := by ring
      have := ih i (by simpa using hi)
      simp only [block, List.flatMap_cons, hd] at this ⊢
      rw [← List.drop_drop, List.drop_left' hx, this]
      rfl

theorem flatMap_block (s n : ℕ) (l : Bytes) (h : l.length = n * s) :
    (List.range n).flatMap (block s l) = l := by
  induction n generalizing l with
  | zero =>
    have hl : l = [] := by simpa using h
    simp [hl]
  | succ n ih =>
    have hd : (l.drop s).length = n * s := by
      simp only [List.length_drop, h]
      rw [Nat.add_mul, Nat.one_mul, Nat.add_sub_cancel]
    have hshift : (List.range n).flatMap (block s l ∘ Nat.succ) =
        (List.range n).flatMap (block s (l.drop s)) := by
      congr 1
      funext i
      simp [block, List.drop_drop, Nat.succ_mul, Nat.add_comm]
    rw [List.range_succ_eq_map, List.flatMap_cons, List.flatMap_map]
    change block s l 0 ++ (List.range n).flatMap (block s l ∘ Nat.succ) = l
    rw [hshift, ih _ hd]
    simp [block]

theorem flatMap_decode_block (p : Pod α) {n : ℕ} {l : Bytes} (h : l.length = n * p.size) :
    ((List.range n).map fun i => p.decode (block p.size l i)).flatMap p.encode = l := by
  have hb : ∀ i < n, (block p.size l i).length = p.size := by
    intro i hi
    have : (i + 1) * p.size ≤ n * p.size := Nat.mul_le_mul_right _ hi
    rw [Nat.add_mul, Nat.one_mul] at this
    simp only [block, List.length_take, List.length_drop, h]
    omega
  rw [List.flatMap_map]
  conv_rhs => rw [← flatMap_block p.size n l h]
  apply List.flatMap_congr
  intro i hi
  exact p.encode_decode _ (hb i (List.mem_range.mp hi))

def array (p : Pod α) (n : ℕ) : Pod (Vector α n) where
  size := n * p.size
  encode v := v.toList.flatMap p.encode
  decode l := Vector.ofFn fun i => p.decode (block p.size l i)
  encode_length v := by
    simp [List.length_flatMap]
  decode_encode v := by
    ext i hi
    have hv : i < v.toList.length := by simpa using hi
    simp [block_flatMap p v.toList i hv]
  encode_decode l h := by
    have hl : (Vector.ofFn fun i : Fin n => p.decode (block p.size l i)).toList =
        (List.range n).map fun i => p.decode (block p.size l i) := by
      apply List.ext_getElem <;> simp
    rw [hl, flatMap_decode_block p h]

def bytes (n : ℕ) : Pod (Vector UInt8 n) := u8.array n

@[simp] theorem u8_size : u8.size = 1 := rfl
@[simp] theorem u16_size : u16.size = 2 := rfl
@[simp] theorem u32_size : u32.size = 4 := rfl
@[simp] theorem u64_size : u64.size = 8 := rfl
@[simp] theorem bytes_size (n : ℕ) : (bytes n).size = n := Nat.mul_one n
@[simp] theorem prod_size (p : Pod α) (q : Pod β) : (p.prod q).size = p.size + q.size := rfl
@[simp] theorem record_size (p : Pod α) (e : β ≃ α) : (p.record e).size = p.size := rfl
@[simp] theorem array_size (p : Pod α) (n : ℕ) : (p.array n).size = n * p.size := rfl

@[simp] theorem bytes_encode {n : ℕ} (v : Vector UInt8 n) : (bytes n).encode v = v.toList := by
  change v.toList.flatMap (fun b => [b]) = v.toList
  simp

end Pod

def slice (l : Bytes) (off len : ℕ) : Bytes := (l.drop off).take len

def splice (l : Bytes) (off : ℕ) (b : Bytes) : Bytes :=
  l.take off ++ b ++ l.drop (off + b.length)

variable {l a b : Bytes} {off n : ℕ}

theorem slice_length (h : off + n ≤ l.length) : (slice l off n).length = n := by
  simp only [slice, List.length_take, List.length_drop]
  omega

theorem splice_length (h : off + b.length ≤ l.length) :
    (splice l off b).length = l.length := by
  simp only [splice, List.length_append, List.length_take, List.length_drop]
  omega

theorem splice_append (h l b : Bytes) (off : ℕ) :
    splice (h ++ l) (h.length + off) b = h ++ splice l off b := by
  rw [splice, splice, List.take_length_add_append, Nat.add_assoc, List.drop_length_add_append,
    List.append_assoc, List.append_assoc, List.append_assoc]

theorem splice_getElem? (h : off + b.length ≤ l.length) (i : ℕ) :
    (splice l off b)[i]? =
      if off ≤ i ∧ i < off + b.length then b[i - off]? else l[i]? := by
  have ht : (l.take off).length = off := by simp; omega
  unfold splice
  rw [List.append_assoc]
  by_cases h₁ : i < off
  · rw [List.getElem?_append_left (by omega), List.getElem?_take_of_lt h₁, if_neg (by omega)]
  · rw [List.getElem?_append_right (by omega), ht]
    by_cases h₂ : i - off < b.length
    · rw [List.getElem?_append_left h₂, if_pos (by omega)]
    · rw [List.getElem?_append_right (by omega), List.getElem?_drop, if_neg (by omega)]
      congr 1
      omega

theorem slice_getElem? (l : Bytes) (off len i : ℕ) :
    (slice l off len)[i]? = if i < len then l[off + i]? else none := by
  unfold slice
  split
  · next h => rw [List.getElem?_take_of_lt h, List.getElem?_drop]
  · next h => simp [h]

theorem slice_drop (l : Bytes) (k off len : ℕ) :
    slice (l.drop k) off len = slice l (k + off) len := by
  rw [slice, slice, List.drop_drop]

theorem slice_add (l : Bytes) (off m n : ℕ) :
    slice l off (m + n) = slice l off m ++ slice l (off + m) n := by
  rw [slice, slice, slice, List.take_add, List.drop_drop]

theorem drop_slice (l : Bytes) (off k n : ℕ) :
    (slice l off (k + n)).drop k = slice l (off + k) n := by
  rw [slice, slice, List.drop_take, List.drop_drop, Nat.add_sub_cancel_left]

theorem slice_slice {k m : ℕ} (h : k + m ≤ n) :
    slice (slice l off n) k m = slice l (off + k) m := by
  rw [slice, slice, slice, List.drop_take, List.drop_drop, List.take_take,
    Nat.min_eq_left (by omega)]

theorem slice_append_left (h : a.length = n) : slice (a ++ b) 0 n = a := by
  rw [slice, List.drop_zero, List.take_left' h]

theorem slice_append_right (h : a.length = off) : slice (a ++ b) off n = b.take n := by
  rw [slice, List.drop_left' h]

theorem slice_middle {c : Bytes} (ha : a.length = off) (hb : b.length = n) :
    slice (a ++ (b ++ c)) off n = b := by
  rw [slice_append_right ha, List.take_left' hb]

theorem slice_splice_self (hn : b.length = n) (h : off + n ≤ l.length) :
    slice (splice l off b) off n = b := by
  subst hn
  apply List.ext_getElem?
  intro i
  rw [slice_getElem?, splice_getElem? h]
  by_cases hi : i < b.length
  · simp [hi]
  · simp [hi]

theorem slice_splice_disjoint {o : ℕ} (h : off + b.length ≤ l.length)
    (hd : o + n ≤ off ∨ off + b.length ≤ o) :
    slice (splice l off b) o n = slice l o n := by
  apply List.ext_getElem?
  intro i
  simp only [slice_getElem?, splice_getElem? h]
  split
  · rw [if_neg (by omega)]
  · rfl

theorem slice_pieces {size k : ℕ} {piece : ℕ → Bytes}
    (h : ∀ i < k, slice l (off + size * i) size = piece i) :
    slice l off (size * k) = (List.range k).flatMap piece := by
  induction k with
  | zero => simp [slice]
  | succ k ih =>
    rw [Nat.mul_succ, slice_add, ih fun i hi => h i (by omega), h k (by omega), List.range_succ,
      List.flatMap_append, List.flatMap_singleton]

end PodLayout
