import Mathlib.Data.Nat.Pairing
import PsyDogeBridge.BlockTransactions

/-! Merkle proofs of one leaf and of the replacement of one leaf, over any two-to-one hash, and what
a proof that passes its check says about the tree. -/
namespace MerkleProofs

open MerkleTree

variable {Hash : Type} (twoToOne : Hash → Hash → Hash)

def twoToOneSwap (swap : Bool) (left right : Hash) : Hash :=
  if swap then twoToOne right left else twoToOne left right

/-- The bits of the index that no sibling uses are not looked at. -/
def computeRootMerkleProofGeneric (value : Hash) (index : UInt64) (siblings : List Hash) : Hash :=
  (siblings.foldl (fun (current, indTracker) sibling =>
    (twoToOneSwap twoToOne (indTracker &&& 1 == 1) current sibling, indTracker >>> 1))
    (value, index)).1

structure DeltaMerkleProofCore (Hash : Type) where
  oldRoot : Hash
  oldValue : Hash
  newRoot : Hash
  newValue : Hash
  index : UInt64
  siblings : List Hash
  deriving DecidableEq

structure MerkleProofCorePartial (Hash : Type) where
  value : Hash
  index : UInt64
  siblings : List Hash
  deriving DecidableEq

namespace DeltaMerkleProofCore

def fromParams (index : UInt64) (oldValue newValue : Hash) (siblings : List Hash) :
    DeltaMerkleProofCore Hash where
  oldRoot := computeRootMerkleProofGeneric twoToOne oldValue index siblings
  oldValue := oldValue
  newRoot := computeRootMerkleProofGeneric twoToOne newValue index siblings
  newValue := newValue
  index := index
  siblings := siblings

/-- The assertion on the height is `none`. -/
def withShortenedHeightFromBottom (self : DeltaMerkleProofCore Hash) (newHeight : ℕ) :
    Option (DeltaMerkleProofCore Hash) :=
  if newHeight ≤ self.siblings.length then
    if newHeight = self.siblings.length then some self
    else
      let heightDiff := self.siblings.length - newHeight
      let lowIndex := self.index &&& ((1 <<< UInt64.ofNat heightDiff) - 1)
      let newIndex := self.index >>> UInt64.ofNat heightDiff
      let oldValue := computeRootMerkleProofGeneric twoToOne self.oldValue lowIndex
        (self.siblings.take heightDiff)
      let newValue := computeRootMerkleProofGeneric twoToOne self.newValue lowIndex
        (self.siblings.take heightDiff)
      some (fromParams twoToOne newIndex oldValue newValue (self.siblings.drop heightDiff))
  else none

def verify [DecidableEq Hash] (self : DeltaMerkleProofCore Hash) : Bool :=
  computeRootMerkleProofGeneric twoToOne self.oldValue self.index self.siblings = self.oldRoot &&
    computeRootMerkleProofGeneric twoToOne self.newValue self.index self.siblings = self.newRoot

end DeltaMerkleProofCore

end MerkleProofs

namespace BlockTransactions.MerkleProofCore

open MerkleProofs

variable {Hash : Type} (twoToOne : Hash → Hash → Hash)

def newFromParams (index : UInt64) (value : Hash) (siblings : List Hash) : MerkleProofCore Hash :=
  ⟨computeRootMerkleProofGeneric twoToOne value index siblings, value, index, siblings⟩

def verify [DecidableEq Hash] (self : MerkleProofCore Hash) : Bool :=
  computeRootMerkleProofGeneric twoToOne self.value self.index self.siblings = self.root

end BlockTransactions.MerkleProofCore

namespace MerkleProofs

open MerkleTree AppendHistory BlockTransactions

variable {Hash : Type} {twoToOne : Hash → Hash → Hash}

section Roots

theorem computeRootMerkleProofGeneric_eq (value : Hash) (index : UInt64) (siblings : List Hash) :
    computeRootMerkleProofGeneric twoToOne value index siblings =
      climb twoToOne value index.toNat siblings := by
  unfold computeRootMerkleProofGeneric
  induction siblings generalizing value index with
  | nil => rfl
  | cons s siblings ih =>
    rw [List.foldl_cons, ih, climb, shiftRight_one_toNat]
    congr 1
    have hswap : (index &&& 1 == 1) = true ↔ index.toNat % 2 = 1 := by
      rw [beq_iff_eq, and_one_eq_one]
    rw [twoToOneSwap, lift]
    by_cases hodd : index.toNat % 2 = 1
    · have heven : ¬ index.toNat % 2 = 0 := by omega
      rw [if_pos (hswap.mpr hodd), if_neg heven]
    · have heven : index.toNat % 2 = 0 := by omega
      rw [if_neg (mt hswap.mp hodd), if_pos heven]

variable [DecidableEq Hash]

theorem MerkleProofCore.verify_iff {proof : MerkleProofCore Hash} :
    proof.verify twoToOne = true ↔
      climb twoToOne proof.value proof.index.toNat proof.siblings = proof.root := by
  rw [MerkleProofCore.verify, decide_eq_true_eq, computeRootMerkleProofGeneric_eq]

theorem DeltaMerkleProofCore.verify_iff {proof : DeltaMerkleProofCore Hash} :
    proof.verify twoToOne = true ↔
      climb twoToOne proof.oldValue proof.index.toNat proof.siblings = proof.oldRoot ∧
        climb twoToOne proof.newValue proof.index.toNat proof.siblings = proof.newRoot := by
  rw [DeltaMerkleProofCore.verify, Bool.and_eq_true, decide_eq_true_eq, decide_eq_true_eq,
    computeRootMerkleProofGeneric_eq, computeRootMerkleProofGeneric_eq]

theorem fromParams_verify (index : UInt64) (oldValue newValue : Hash) (siblings : List Hash) :
    (DeltaMerkleProofCore.fromParams twoToOne index oldValue newValue siblings).verify twoToOne =
      true := by
  rw [DeltaMerkleProofCore.verify_iff, DeltaMerkleProofCore.fromParams]
  exact ⟨(computeRootMerkleProofGeneric_eq _ _ _).symm,
    (computeRootMerkleProofGeneric_eq _ _ _).symm⟩

end Roots

section Shortened

variable {proof short : DeltaMerkleProofCore Hash} {newHeight : ℕ}

theorem low_index_toNat (index : UInt64) {k : ℕ} (hk : k < 64) :
    (index &&& ((1 <<< UInt64.ofNat k) - 1)).toNat = index.toNat % 2 ^ k := by
  have hpow : 2 ^ k < 2 ^ 64 := Nat.pow_lt_pow_right (by decide) hk
  have hpos := Nat.two_pow_pos k
  have hone : (1 : UInt64).toNat = 1 := rfl
  have hindex : (UInt64.ofNat k).toNat % 64 = k := by
    rw [UInt64.toNat_ofNat']
    omega
  have hshift : (1 <<< UInt64.ofNat k : UInt64).toNat = 2 ^ k := by
    rw [UInt64.toNat_shiftLeft, hone, hindex, Nat.one_shiftLeft, Nat.mod_eq_of_lt hpow]
  have hle : (1 : UInt64) ≤ 1 <<< UInt64.ofNat k := by
    rw [UInt64.le_iff_toNat_le, hshift, hone]
    exact hpos
  rw [UInt64.toNat_and, UInt64.toNat_sub_of_le _ _ hle, hshift, hone,
    Nat.and_two_pow_sub_one_eq_mod]

theorem high_index_toNat (index : UInt64) {k : ℕ} (hk : k < 64) :
    (index >>> UInt64.ofNat k).toNat = index.toNat / 2 ^ k := by
  have hindex : (UInt64.ofNat k).toNat % 64 = k := by
    rw [UInt64.toNat_ofNat']
    omega
  rw [UInt64.toNat_shiftRight, hindex, Nat.shiftRight_eq_div_pow]

theorem climb_low (value : Hash) (p : ℕ) {siblings : List Hash} {k : ℕ}
    (hk : k ≤ siblings.length) :
    climb twoToOne value (p % 2 ^ k) (siblings.take k) =
      climb twoToOne value p (siblings.take k) := by
  have hmod : climb twoToOne value (p % 2 ^ (siblings.take k).length) (siblings.take k) =
      climb twoToOne value p (siblings.take k) := climb_mod _ _ _
  rwa [List.length_take_of_le hk] at hmod

theorem climb_split (value : Hash) (p : ℕ) {siblings : List Hash} {k : ℕ}
    (hk : k ≤ siblings.length) :
    climb twoToOne (climb twoToOne value p (siblings.take k)) (p / 2 ^ k) (siblings.drop k) =
      climb twoToOne value p siblings := by
  have hparts : climb twoToOne value p (siblings.take k ++ siblings.drop k) =
      climb twoToOne (climb twoToOne value p (siblings.take k))
        (p / 2 ^ (siblings.take k).length) (siblings.drop k) := climb_append _ _ _ _
  rw [List.length_take_of_le hk] at hparts
  rw [← hparts, List.take_append_drop]

def upperPart (twoToOne : Hash → Hash → Hash) (proof : DeltaMerkleProofCore Hash) (k : ℕ) :
    DeltaMerkleProofCore Hash where
  oldRoot := proof.oldRoot
  oldValue := climb twoToOne proof.oldValue proof.index.toNat (proof.siblings.take k)
  newRoot := proof.newRoot
  newValue := climb twoToOne proof.newValue proof.index.toNat (proof.siblings.take k)
  index := proof.index >>> UInt64.ofNat k
  siblings := proof.siblings.drop k

theorem upperPart_zero (proof : DeltaMerkleProofCore Hash) :
    upperPart twoToOne proof 0 = proof := by
  have hindex : proof.index >>> UInt64.ofNat 0 = proof.index := by
    rw [← UInt64.toNat_inj, high_index_toNat _ (by decide), pow_zero, Nat.div_one]
  rw [upperPart, hindex]
  rfl

theorem upperPart_upperPart (proof : DeltaMerkleProofCore Hash) {a b : ℕ}
    (hle : a + b ≤ proof.siblings.length) (hlt : a + b < 64) :
    upperPart twoToOne (upperPart twoToOne proof a) b = upperPart twoToOne proof (a + b) := by
  have hfirst : (proof.index >>> UInt64.ofNat a).toNat = proof.index.toNat / 2 ^ a :=
    high_index_toNat _ (by omega)
  have hindex : proof.index >>> UInt64.ofNat a >>> UInt64.ofNat b =
      proof.index >>> UInt64.ofNat (a + b) := by
    rw [← UInt64.toNat_inj, high_index_toNat _ (by omega), hfirst, high_index_toNat _ hlt,
      Nat.div_div_eq_div_mul, ← pow_add]
  -- The `b` levels above the first `a`, as a part of the lowest `a + b`.
  have hvalue (value : Hash) : climb twoToOne (climb twoToOne value proof.index.toNat
      (proof.siblings.take a)) (proof.index.toNat / 2 ^ a) ((proof.siblings.drop a).take b) =
        climb twoToOne value proof.index.toNat (proof.siblings.take (a + b)) := by
    have hlen : a ≤ (proof.siblings.take (a + b)).length := by
      rw [List.length_take_of_le hle]
      omega
    rw [← climb_split value _ hlen, List.take_take, List.drop_take, Nat.min_eq_left (by omega),
      Nat.add_sub_cancel_left]
  simp only [upperPart, hfirst, hindex, hvalue, List.drop_drop]

variable [DecidableEq Hash]

theorem upperPart_verify (hverify : proof.verify twoToOne = true) {k : ℕ}
    (hk : k ≤ proof.siblings.length) (hlt : k < 64) :
    (upperPart twoToOne proof k).verify twoToOne = true := by
  rw [DeltaMerkleProofCore.verify_iff] at hverify ⊢
  simp only [upperPart, high_index_toNat _ hlt, climb_split _ _ hk]
  exact hverify

theorem withShortenedHeightFromBottom_eq (hverify : proof.verify twoToOne = true)
    (hle : newHeight ≤ proof.siblings.length) (hlen : proof.siblings.length ≤ 63) :
    proof.withShortenedHeightFromBottom twoToOne newHeight =
      some (upperPart twoToOne proof (proof.siblings.length - newHeight)) := by
  rw [DeltaMerkleProofCore.withShortenedHeightFromBottom, if_pos hle]
  by_cases heq : newHeight = proof.siblings.length
  · rw [if_pos heq, heq, Nat.sub_self, upperPart_zero]
  · have hdiff : proof.siblings.length - newHeight ≤ proof.siblings.length := Nat.sub_le _ _
    have hlt : proof.siblings.length - newHeight < 64 := by omega
    obtain ⟨hold, hnew⟩ := DeltaMerkleProofCore.verify_iff.mp hverify
    rw [if_neg heq]
    simp only [DeltaMerkleProofCore.fromParams, computeRootMerkleProofGeneric_eq,
      low_index_toNat _ hlt, high_index_toNat _ hlt, climb_low _ _ hdiff,
      climb_split _ _ hdiff, hold,
      hnew]
    rfl

/-- A proof of at most 63 levels that passes, shortened to any height that it has: the result passes
with the same roots, and shortening it further gives what shortening the proof itself gives. -/
theorem shortened_proof (twoToOne : Hash → Hash → Hash) (proof : DeltaMerkleProofCore Hash)
    (hlen : proof.siblings.length ≤ 63) (hverify : proof.verify twoToOne = true) (newHeight : ℕ)
    (hle : newHeight ≤ proof.siblings.length) :
    ∃ short, proof.withShortenedHeightFromBottom twoToOne newHeight = some short ∧
      short.siblings.length = newHeight ∧ short.verify twoToOne = true ∧
      short.oldRoot = proof.oldRoot ∧ short.newRoot = proof.newRoot ∧
      short.index.toNat = proof.index.toNat / 2 ^ (proof.siblings.length - newHeight) ∧
      ∀ lower ≤ newHeight, short.withShortenedHeightFromBottom twoToOne lower =
        proof.withShortenedHeightFromBottom twoToOne lower := by
  have hdiff : proof.siblings.length - newHeight ≤ proof.siblings.length := Nat.sub_le _ _
  have hshort : (upperPart twoToOne proof (proof.siblings.length - newHeight)).siblings.length =
      newHeight := by
    change (proof.siblings.drop _).length = _
    rw [List.length_drop]
    omega
  have hpasses := upperPart_verify hverify hdiff (by omega)
  refine ⟨_, withShortenedHeightFromBottom_eq hverify hle hlen, hshort, hpasses, rfl, rfl,
    high_index_toNat _ (by omega), ?_⟩
  intro lower hlower
  have hsum : proof.siblings.length - newHeight + (newHeight - lower) =
      proof.siblings.length - lower := by omega
  rw [withShortenedHeightFromBottom_eq hpasses (by omega) (by omega),
    withShortenedHeightFromBottom_eq hverify (by omega) hlen, hshort,
    upperPart_upperPart _ (by omega) (by omega), hsum]

/-- The replacement of leaf `2` of a tree of four leaves, one level up. -/
theorem shortened_by_one :
    ∃ short, (DeltaMerkleProofCore.fromParams Nat.pair 2 7 8 [3, 5]).withShortenedHeightFromBottom
        Nat.pair 1 = some short ∧
      short.siblings.length = 1 ∧ short.verify Nat.pair = true ∧
      short.oldRoot = computeRootMerkleProofGeneric Nat.pair 7 2 [3, 5] ∧
        short.index.toNat = 1 := by
  obtain ⟨short, hshort, hlen, hverify, hold, -, hindex, -⟩ := shortened_proof Nat.pair
    (.fromParams Nat.pair 2 7 8 [3, 5]) (by decide) (fromParams_verify _ _ _ _) 1 (by decide)
  exact ⟨short, hshort, hlen, hverify, hold, hindex⟩

end Shortened

section Trees

theorem injOn_of_injective2 (h : Function.Injective2 twoToOne) (s : Set (Hash × Hash)) :
    Set.InjOn (fun q : Hash × Hash => twoToOne q.1 q.2) s := by
  intro q _ r _ heq
  obtain ⟨hleft, hright⟩ := h heq
  exact Prod.ext hleft hright

theorem pair_injective2 : Function.Injective2 Nat.pair := by
  intro a a' b b' h
  exact Nat.pair_eq_pair.mp h

variable {leaf : ℕ → Hash} {k : ℕ}

/-- A path of the height of the tree that leads to its root starts at the leaf that the low bits
of the index name. -/
theorem leaf_of_root {value : Hash} {index : ℕ} {siblings : List Hash}
    (hinj : Set.InjOn (fun q : Hash × Hash => twoToOne q.1 q.2)
      (nodePairs twoToOne leaf k ∪ climbPairs twoToOne value index siblings))
    (hlen : siblings.length = k)
    (hroot : climb twoToOne value index siblings = node twoToOne leaf k 0) :
    value = leaf (index % 2 ^ k) ∧ siblings = path twoToOne leaf (index % 2 ^ k) k := by
  rw [← climb_mod, hlen] at hroot
  rw [← climbPairs_mod, hlen] at hinj
  obtain ⟨hvalue, hsiblings⟩ := climb_unique (d := 0) hinj (by rw [hlen, zero_add])
    (Nat.mod_lt _ (Nat.two_pow_pos k)) hroot
  refine ⟨hvalue, ?_⟩
  rw [hlen] at hsiblings
  simp only [pow_zero, mul_one, zero_add] at hsiblings
  exact hsiblings

theorem same_low_bits {value : Hash} {i j : ℕ} {ss ts : List Hash}
    (hdistinct : Set.InjOn leaf { i | i < 2 ^ k })
    (hinj : Set.InjOn (fun q : Hash × Hash => twoToOne q.1 q.2)
      (nodePairs twoToOne leaf k ∪ climbPairs twoToOne value i ss ∪ climbPairs twoToOne value j ts))
    (hss : ss.length = k) (hts : ts.length = k)
    (hi : climb twoToOne value i ss = node twoToOne leaf k 0)
    (hj : climb twoToOne value j ts = node twoToOne leaf k 0) : i % 2 ^ k = j % 2 ^ k := by
  have hfirst : value = leaf (i % 2 ^ k) :=
    (leaf_of_root (hinj.mono Set.subset_union_left) hss hi).1
  have hsub : nodePairs twoToOne leaf k ∪ climbPairs twoToOne value j ts ⊆
      nodePairs twoToOne leaf k ∪ climbPairs twoToOne value i ss ∪
        climbPairs twoToOne value j ts :=
    Set.union_subset_union_left _ Set.subset_union_left
  have hsecond : value = leaf (j % 2 ^ k) := (leaf_of_root (hinj.mono hsub) hts hj).1
  exact hdistinct (Nat.mod_lt _ (Nat.two_pow_pos k)) (Nat.mod_lt _ (Nat.two_pow_pos k))
    (hfirst.symm.trans hsecond)

end Trees

section Chains

def Chained (root : Hash) : List (DeltaMerkleProofCore Hash) → Prop
  | [] => True
  | proof :: proofs => proof.oldRoot = root ∧ Chained proof.newRoot proofs

def lastRoot (root : Hash) (proofs : List (DeltaMerkleProofCore Hash)) : Hash :=
  proofs.foldl (fun _ proof => proof.newRoot) root

def applied (leaf : ℕ → Hash) (proofs : List (DeltaMerkleProofCore Hash)) : ℕ → Hash :=
  proofs.foldl (fun leaf proof => Function.update leaf proof.index.toNat proof.newValue) leaf

/-- The pairs that are hashed in the trees that a chain goes through and on the paths of the old
values. -/
def hashedPairs (twoToOne : Hash → Hash → Hash) (leaf : ℕ → Hash) (k : ℕ) :
    List (DeltaMerkleProofCore Hash) → Set (Hash × Hash)
  | [] => ∅
  | proof :: proofs =>
    nodePairs twoToOne leaf k ∪
      climbPairs twoToOne proof.oldValue proof.index.toNat proof.siblings ∪
      hashedPairs twoToOne (Function.update leaf proof.index.toNat proof.newValue) k proofs

structure Updates (twoToOne : Hash → Hash → Hash) (leaf : ℕ → Hash) (k : ℕ)
    (proof : DeltaMerkleProofCore Hash) : Prop where
  oldValue : proof.oldValue = leaf proof.index.toNat
  siblings : proof.siblings = path twoToOne leaf proof.index.toNat k
  newRoot : proof.newRoot =
    node twoToOne (Function.update leaf proof.index.toNat proof.newValue) k 0

variable [DecidableEq Hash] {leaf : ℕ → Hash} {k : ℕ}

/-- A chain of proofs that pass, from the root of a tree: each one is about the tree that the
updates before it leave, and its new root is the one after its own update. -/
theorem verified_chain_updates {proofs : List (DeltaMerkleProofCore Hash)}
    (hlen : ∀ proof ∈ proofs, proof.siblings.length = k)
    (hindex : ∀ proof ∈ proofs, proof.index.toNat < 2 ^ k)
    (hverify : ∀ proof ∈ proofs, proof.verify twoToOne = true)
    (hchain : Chained (node twoToOne leaf k 0) proofs)
    (hinj : Set.InjOn (fun q : Hash × Hash => twoToOne q.1 q.2)
      (hashedPairs twoToOne leaf k proofs)) :
    (∀ before proof after, proofs = before ++ proof :: after →
        Updates twoToOne (applied leaf before) k proof) ∧
      lastRoot (node twoToOne leaf k 0) proofs = node twoToOne (applied leaf proofs) k 0 := by
  induction proofs generalizing leaf with
  | nil =>
    refine ⟨?_, rfl⟩
    intro before proof after h
    exact absurd h (by simp)
  | cons first proofs ih =>
    obtain ⟨hroot, hrest⟩ := hchain
    have hfirst : Updates twoToOne leaf k first := by
      have hlt := hindex _ List.mem_cons_self
      obtain ⟨hold, hnew⟩ := DeltaMerkleProofCore.verify_iff.mp (hverify _ List.mem_cons_self)
      obtain ⟨hvalue, hsiblings⟩ := leaf_of_root (hinj.mono Set.subset_union_left)
        (hlen _ List.mem_cons_self) (hold.trans hroot)
      rw [Nat.mod_eq_of_lt hlt] at hvalue hsiblings
      refine ⟨hvalue, hsiblings, ?_⟩
      rw [← hnew, hsiblings, climb_update, Nat.div_eq_of_lt hlt]
    rw [hfirst.newRoot] at hrest
    obtain ⟨hall, hlast⟩ := ih (fun p hp => hlen p (List.mem_cons_of_mem _ hp))
      (fun p hp => hindex p (List.mem_cons_of_mem _ hp))
      (fun p hp => hverify p (List.mem_cons_of_mem _ hp)) hrest
      (hinj.mono Set.subset_union_right)
    constructor
    · intro before proof after h
      cases before with
      | nil =>
        rw [List.nil_append, List.cons.injEq] at h
        rw [← h.1]
        exact hfirst
      | cons b before =>
        rw [List.cons_append, List.cons.injEq] at h
        rw [← h.1]
        exact hall before proof after h.2
    · change lastRoot first.newRoot proofs = _
      rw [hfirst.newRoot]
      exact hlast

/-- Two updates of a tree with the leaves `0` and `1`: the second path shows the first update. -/
theorem two_updates :
    (∀ before proof after,
        [⟨1, 0, 31, 5, 0, [1]⟩, ⟨31, 1, 54, 7, 1, [5]⟩] = before ++ proof :: after →
          Updates Nat.pair (applied (fun i => i) before) 1 proof) ∧
      lastRoot (node Nat.pair (fun i => i) 1 0)
          [⟨1, 0, 31, 5, 0, [1]⟩, ⟨31, 1, 54, 7, 1, [5]⟩] =
        node Nat.pair (applied (fun i => i) [⟨1, 0, 31, 5, 0, [1]⟩, ⟨31, 1, 54, 7, 1, [5]⟩]) 1 0 :=
  verified_chain_updates (by decide) (by decide) (by decide) ⟨by decide, rfl, trivial⟩
    (injOn_of_injective2 pair_injective2 _)

end Chains

section Indices

variable {leaf : ℕ → Hash} {k : ℕ}

theorem same_index_iff {i j : UInt64} (h : i.toNat % 2 ^ k = j.toNat % 2 ^ k) :
    i = j ∧ i.toNat < 2 ^ k ↔ i.toNat < 2 ^ k ∧ j.toNat < 2 ^ k := by
  constructor
  · rintro ⟨rfl, hlt⟩
    exact ⟨hlt, hlt⟩
  · rintro ⟨hi, hj⟩
    rw [Nat.mod_eq_of_lt hi, Nat.mod_eq_of_lt hj] at h
    exact ⟨UInt64.toNat_inj.mp h, hi⟩

/-- Two proofs of one value in a tree with distinct leaves agree on the bits of the index that
the path uses. They agree on the index, and it is in the tree, exactly if both indices are. -/
theorem verified_indices {Hash : Type} [DecidableEq Hash] (twoToOne : Hash → Hash → Hash)
    (leaf : ℕ → Hash) (k : ℕ) (hdistinct : Set.InjOn leaf { i | i < 2 ^ k }) :
    (∀ p q : MerkleProofCore Hash, p.siblings.length = k → q.siblings.length = k →
      p.verify twoToOne = true → q.verify twoToOne = true →
      p.root = node twoToOne leaf k 0 → q.root = node twoToOne leaf k 0 → p.value = q.value →
      Set.InjOn (fun r : Hash × Hash => twoToOne r.1 r.2) (nodePairs twoToOne leaf k ∪
        climbPairs twoToOne p.value p.index.toNat p.siblings ∪
        climbPairs twoToOne q.value q.index.toNat q.siblings) →
      p.index.toNat % 2 ^ k = q.index.toNat % 2 ^ k ∧
        (p.index = q.index ∧ p.index.toNat < 2 ^ k ↔
          p.index.toNat < 2 ^ k ∧ q.index.toNat < 2 ^ k)) ∧
    ∀ p q : DeltaMerkleProofCore Hash, p.siblings.length = k → q.siblings.length = k →
      p.verify twoToOne = true → q.verify twoToOne = true →
      p.oldRoot = node twoToOne leaf k 0 → q.oldRoot = node twoToOne leaf k 0 →
      p.oldValue = q.oldValue →
      Set.InjOn (fun r : Hash × Hash => twoToOne r.1 r.2) (nodePairs twoToOne leaf k ∪
        climbPairs twoToOne p.oldValue p.index.toNat p.siblings ∪
        climbPairs twoToOne q.oldValue q.index.toNat q.siblings) →
      p.index.toNat % 2 ^ k = q.index.toNat % 2 ^ k ∧
        (p.index = q.index ∧ p.index.toNat < 2 ^ k ↔
          p.index.toNat < 2 ^ k ∧ q.index.toNat < 2 ^ k) := by
  constructor
  · intro p q hp hq hpv hqv hpr hqr hvalue hinj
    have hpc := MerkleProofCore.verify_iff.mp hpv
    have hqc := MerkleProofCore.verify_iff.mp hqv
    rw [← hvalue] at hinj hqc
    have hbits := same_low_bits hdistinct hinj hp hq (hpc.trans hpr) (hqc.trans hqr)
    exact ⟨hbits, same_index_iff hbits⟩
  · intro p q hp hq hpv hqv hpr hqr hvalue hinj
    have hpc := (DeltaMerkleProofCore.verify_iff.mp hpv).1
    have hqc := (DeltaMerkleProofCore.verify_iff.mp hqv).1
    rw [← hvalue] at hinj hqc
    have hbits := same_low_bits hdistinct hinj hp hq (hpc.trans hpr) (hqc.trans hqr)
    exact ⟨hbits, same_index_iff hbits⟩

/-- Proofs of the leaf `0` of the tree with the leaves `0` and `1`, and of updates of it, at the
indices `0` and `2`: the low bits agree. -/
theorem low_leaf_indices :
    (MerkleProofCore.mk 1 0 0 [1]).index.toNat % 2 ^ 1 =
        (MerkleProofCore.mk 1 0 2 [1]).index.toNat % 2 ^ 1 ∧
      (DeltaMerkleProofCore.mk 1 0 31 5 0 [1]).index.toNat % 2 ^ 1 =
        (DeltaMerkleProofCore.mk 1 0 57 7 2 [1]).index.toNat % 2 ^ 1 := by
  have hdistinct : Set.InjOn (fun i : ℕ => i) { i | i < 2 ^ 1 } := fun _ _ _ _ h => h
  have h := verified_indices Nat.pair (fun i => i) 1 hdistinct
  constructor
  · exact (h.1 ⟨1, 0, 0, [1]⟩ ⟨1, 0, 2, [1]⟩ rfl rfl (by decide) (by decide) (by decide) (by decide)
      rfl (injOn_of_injective2 pair_injective2 _)).1
  · exact (h.2 ⟨1, 0, 31, 5, 0, [1]⟩ ⟨1, 0, 57, 7, 2, [1]⟩ rfl rfl (by decide) (by decide)
      (by decide) (by decide) rfl (injOn_of_injective2 pair_injective2 _)).1

/-- Both checks accept the leaf `0` of the tree with the leaves `0` and `1` at the index `0` and,
beyond the tree, at the index `2`. -/
theorem index_beyond_tree_accepted :
    Function.Injective2 Nat.pair ∧ Set.InjOn (fun i : ℕ => i) { i | i < 2 ^ 1 } ∧
      MerkleProofCore.verify Nat.pair ⟨node Nat.pair (fun i => i) 1 0, 0, 0, [1]⟩ = true ∧
      MerkleProofCore.verify Nat.pair ⟨node Nat.pair (fun i => i) 1 0, 0, 2, [1]⟩ = true ∧
      DeltaMerkleProofCore.verify Nat.pair
        ⟨node Nat.pair (fun i => i) 1 0, 0, Nat.pair 5 1, 5, 0, [1]⟩ = true ∧
      DeltaMerkleProofCore.verify Nat.pair
        ⟨node Nat.pair (fun i => i) 1 0, 0, Nat.pair 5 1, 5, 2, [1]⟩ = true ∧
      (0 : UInt64) ≠ 2 ∧ ¬ (2 : UInt64).toNat < 2 ^ 1 :=
  ⟨pair_injective2, fun _ _ _ _ h => h, by decide, by decide, by decide, by decide, by decide,
    by decide⟩

end Indices

end MerkleProofs
