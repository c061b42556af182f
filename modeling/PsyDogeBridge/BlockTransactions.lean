import PsyDogeBridge.DuplicatedTree
import PsyDogeBridge.SentTransactions

/-! Proofs that a transaction is in a block: the tree of the transactions duplicates the last node
of an odd level, and three functions check a path in it. -/
namespace BlockTransactions

open PodLayout BridgeData MerkleTree DuplicatedTree SentTransactions LocalCluster

def hashImplBtcHash256TwoToOneBytes (c : Crypto) (left right : QHash256) : QHash256 :=
  c.sha256 (hashv c [left.toList, right.toList]).toList

def btcHash256TwoToOne (c : Crypto) (left right : QHash256) : QHash256 :=
  c.sha256 (c.sha256 (left.toList ++ right.toList)).toList

def pathStep {Hash Index : Type} [DecidableEq Hash] (twoToOne : Hash → Hash → Hash)
    (isLeft : Index → Bool) (half : Index → Index) :
    Hash × Index → Hash → Option (Hash × Index)
  | (current, index), sibling =>
    if isLeft index then some (twoToOne current sibling, half index)
    else if sibling = current then none
    else some (twoToOne sibling current, half index)

def computeDogecoinBlockTransactionMerkleProofTreeRootHash256 (c : Crypto) (value : QHash256)
    (siblings : List QHash256) (index : UInt32) : Option QHash256 := do
  let (current, index) ← siblings.foldlM (pathStep (hashImplBtcHash256TwoToOneBytes c)
    (fun index : UInt32 => index &&& 1 == 0) (· >>> 1)) (value, index)
  if index ≠ 0 then none else some current

structure MerkleProofCore (Hash : Type) where
  root : Hash
  value : Hash
  index : UInt64
  siblings : List Hash

def MerkleProofCore.verifyBtcBlockTxTree {Hash : Type} [DecidableEq Hash]
    (twoToOne : Hash → Hash → Hash) (self : MerkleProofCore Hash) : Bool :=
  match self.siblings.foldlM (pathStep twoToOne (fun index : UInt64 => index &&& 1 == 0) (· >>> 1))
    (self.value, self.index) with
  | none => false
  | some (current, indexTracker) => if indexTracker ≠ 0 then false else current = self.root

/-- One level of a path whose siblings are in one byte string. -/
def inMemoryStep (c : Crypto) (siblings : Bytes) :
    QHash256 × UInt32 → ℕ → Option (QHash256 × UInt32)
  | (current, index), i =>
    let sibling := slice siblings (i * 32) 32
    if index &&& 1 = 0 then some (btcHash256Bytes c (current.toList ++ sibling), index >>> 1)
    else if sibling = current.toList then none
    else some (btcHash256Bytes c (sibling ++ current.toList), index >>> 1)

def computeDogecoinBlockTransactionMerkleProofTreeRootInMemory (c : Crypto) (value : QHash256)
    (siblings : Bytes) (index : UInt32) (siblingsCount : ℕ) : Option QHash256 := do
  if siblings.length < 32 * siblingsCount then none
  else
    let (current, index) ← (List.range siblingsCount).foldlM (inMemoryStep c siblings)
      (value, index)
    if index ≠ 0 then none else some current

/-- After its own checks the body is the one of the function above. -/
def computeDogecoinLastTransactionInBlockMerkleRootInMemory (c : Crypto) (value : QHash256)
    (siblings : Bytes) (index claimedTotalTransactionCount : UInt32) (siblingsCount : ℕ) :
    Option QHash256 :=
  if claimedTotalTransactionCount = 0 then none
  else if index ≠ claimedTotalTransactionCount - 1 then none
  else computeDogecoinBlockTransactionMerkleProofTreeRootInMemory c value siblings index
    siblingsCount

section Paths

variable {Hash Index : Type} [DecidableEq Hash] {twoToOne : Hash → Hash → Hash}
  {isLeft : Index → Bool} {half : Index → Index} {toNat : Index → ℕ}

theorem foldlM_pathStep (hleft : ∀ i, isLeft i = true ↔ toNat i % 2 = 0)
    (hhalf : ∀ i, toNat (half i) = toNat i / 2) (value : Hash) (index : Index)
    (siblings : List Hash) :
    (siblings.foldlM (pathStep twoToOne isLeft half) (value, index)).bind
        (fun s => if toNat s.2 = 0 then some s.1 else none) =
      checkedClimb twoToOne value (toNat index) siblings := by
  induction siblings generalizing value index with
  | nil => rfl
  | cons s siblings ih =>
    rw [List.foldlM_cons, checkedClimb, lift, ← hhalf]
    by_cases heven : toNat index % 2 = 0
    · have hcopy : ¬ (toNat index % 2 = 1 ∧ s = value) := fun h => by omega
      rw [if_neg hcopy, if_pos heven, ← ih, pathStep, if_pos ((hleft index).mpr heven)]
      rfl
    · have hnleft : ¬ isLeft index = true := fun h => heven ((hleft index).mp h)
      rw [pathStep, if_neg hnleft, if_neg heven]
      by_cases heq : s = value
      · rw [if_pos heq, if_pos ⟨by omega, heq⟩]
        rfl
      · rw [if_neg heq, if_neg fun h => heq h.2, ← ih]
        rfl

variable {c : Crypto} {value : QHash256} {siblings : List QHash256} {index : UInt32}

theorem hashImplBtcHash256TwoToOneBytes_eq :
    hashImplBtcHash256TwoToOneBytes c = btcHash256TwoToOne c := by
  funext left right
  rw [hashImplBtcHash256TwoToOneBytes, btcHash256TwoToOne, hashv]
  simp

theorem isLeft_iff (i : UInt32) : (i &&& 1 == 0) = true ↔ i.toNat % 2 = 0 := by
  rw [beq_iff_eq, ← UInt32.toNat_inj, UInt32.toNat_and]
  change i.toNat &&& 1 = 0 ↔ _
  rw [Nat.and_one_is_mod]

theorem half_toNat (i : UInt32) : (i >>> 1).toNat = i.toNat / 2 := by
  rw [UInt32.toNat_shiftRight]
  change i.toNat >>> 1 = _
  rw [Nat.shiftRight_one]

theorem treeRootHash256_eq :
    computeDogecoinBlockTransactionMerkleProofTreeRootHash256 c value siblings index =
      checkedClimb (btcHash256TwoToOne c) value index.toNat siblings := by
  rw [← foldlM_pathStep isLeft_iff half_toNat, ← hashImplBtcHash256TwoToOneBytes_eq,
    computeDogecoinBlockTransactionMerkleProofTreeRootHash256, Option.bind_eq_bind]
  congr 1
  funext s
  have hzero : s.2 = 0 ↔ s.2.toNat = 0 := UInt32.toNat_inj.symm
  simp only [ne_eq, hzero, ite_not]

theorem verifyBtcBlockTxTree_iff {proof : MerkleProofCore QHash256} :
    proof.verifyBtcBlockTxTree (btcHash256TwoToOne c) = true ↔
      checkedClimb (btcHash256TwoToOne c) proof.value proof.index.toNat proof.siblings =
        some proof.root := by
  have hleft (i : UInt64) : (i &&& 1 == 0) = true ↔ i.toNat % 2 = 0 := by
    rw [beq_iff_eq, AppendHistory.and_one_eq_zero]
  have hzero (i : UInt64) : i = 0 ↔ i.toNat = 0 := UInt64.toNat_inj.symm
  rw [← foldlM_pathStep hleft AppendHistory.shiftRight_one_toNat,
    MerkleProofCore.verifyBtcBlockTxTree]
  cases proof.siblings.foldlM (pathStep (btcHash256TwoToOne c)
    (fun index : UInt64 => index &&& 1 == 0) (· >>> 1)) (proof.value, proof.index) with
  | none => simp
  | some s =>
    obtain ⟨current, rest⟩ := s
    dsimp only [Option.bind_some]
    by_cases hrest : rest.toNat = 0
    · simp [hzero, hrest]
    · simp [hzero, hrest]

end Paths

section InMemory

variable {c : Crypto} {value : QHash256} {siblings : Bytes} {index : UInt32} {k : ℕ}

def hashesOf (siblings : Bytes) (k : ℕ) : List QHash256 :=
  (List.range k).map fun i => hashPod.decode (slice siblings (i * 32) 32)

theorem hashesOf_length : (hashesOf siblings k).length = k := by
  rw [hashesOf, List.length_map, List.length_range]

theorem inMemoryStep_eq {i : ℕ} (hlen : i * 32 + 32 ≤ siblings.length) (st : QHash256 × UInt32) :
    inMemoryStep c siblings st i = pathStep (btcHash256TwoToOne c)
      (fun index : UInt32 => index &&& 1 == 0) (· >>> 1) st
      (hashPod.decode (slice siblings (i * 32) 32)) := by
  obtain ⟨current, index⟩ := st
  have hlength : (slice siblings (i * 32) 32).length = 32 := slice_length hlen
  obtain ⟨sibling, hsibling⟩ : ∃ sibling : QHash256, slice siblings (i * 32) 32 =
    sibling.toList := by
    refine ⟨hashPod.decode (slice siblings (i * 32) 32), ?_⟩
    rw [← Pod.bytes_encode, hashPod.encode_decode _ hlength]
  rw [inMemoryStep, pathStep, hsibling, hashPod_decode]
  simp only [beq_iff_eq, Vector.toList_inj]
  rfl

theorem foldlM_inMemoryStep (is : List ℕ) (hlen : ∀ i ∈ is, i * 32 + 32 ≤ siblings.length)
    (st : QHash256 × UInt32) :
    is.foldlM (inMemoryStep c siblings) st =
      (is.map fun i => hashPod.decode (slice siblings (i * 32) 32)).foldlM
        (pathStep (btcHash256TwoToOne c) (fun index : UInt32 => index &&& 1 == 0) (· >>> 1))
          st := by
  induction is generalizing st with
  | nil => rfl
  | cons i is ih =>
    rw [List.foldlM_cons, List.map_cons, List.foldlM_cons,
      inMemoryStep_eq (hlen i List.mem_cons_self)]
    congr 1
    funext st'
    exact ih (fun j hj => hlen j (List.mem_cons_of_mem _ hj)) st'

theorem treeRootInMemory_eq :
    computeDogecoinBlockTransactionMerkleProofTreeRootInMemory c value siblings index k =
      if siblings.length < 32 * k then none
      else computeDogecoinBlockTransactionMerkleProofTreeRootHash256 c value (hashesOf siblings k)
        index := by
  rw [computeDogecoinBlockTransactionMerkleProofTreeRootInMemory,
    computeDogecoinBlockTransactionMerkleProofTreeRootHash256,
    hashImplBtcHash256TwoToOneBytes_eq]
  by_cases hshort : siblings.length < 32 * k
  · rw [if_pos hshort, if_pos hshort]
  · rw [if_neg hshort, if_neg hshort, foldlM_inMemoryStep, hashesOf]
    intro i hi
    have := List.mem_range.mp hi
    omega

theorem hashesOf_flatMap (hashes : List QHash256) :
    hashesOf (hashes.flatMap Vector.toList) hashes.length = hashes := by
  induction hashes with
  | nil => rfl
  | cons h hashes ih =>
    have hlength : h.toList.length = 32 := Vector.length_toList
    have hfirst : slice (h.toList ++ hashes.flatMap Vector.toList) (0 * 32) 32 = h.toList :=
      slice_append_left hlength
    have hnext (i : ℕ) : slice (h.toList ++ hashes.flatMap Vector.toList) ((i + 1) * 32) 32 =
        slice (hashes.flatMap Vector.toList) (i * 32) 32 := by
      have hoff : (i + 1) * 32 = 32 + i * 32 := by omega
      rw [hoff, ← slice_drop, List.drop_left' hlength]
    rw [List.flatMap_cons, List.length_cons, hashesOf, List.range_succ_eq_map, List.map_cons,
      List.map_map, hfirst, hashPod_decode]
    rw [hashesOf] at ih
    refine congrArg (List.cons h) (Eq.trans (List.map_congr_left ?_) ih)
    intro i _
    rw [Function.comp_apply, Nat.succ_eq_add_one, hnext]

end InMemory

section Blocks

variable {c : Crypto} {txs : List QHash256} {k : ℕ} {root value : QHash256} {index : UInt32}

/-- The hash has no collision among the pairs that the tree of the block and the path hash. -/
def NoCollision (c : Crypto) (txs : List QHash256) (k : ℕ) (value : QHash256) (index : UInt32)
    (siblings : List QHash256) : Prop :=
  Set.InjOn (fun q : QHash256 × QHash256 => btcHash256TwoToOne c q.1 q.2)
    (treePairs (btcHash256TwoToOne c) k txs ∪
      climbPairs (btcHash256TwoToOne c) value index.toNat siblings)

theorem treeRootHash256_eq_some_iff {siblings : List QHash256}
    (tree : HasRoot (btcHash256TwoToOne c) txs k root) (distinct : txs.Nodup)
    (count : siblings.length = k) (injective : NoCollision c txs k value index siblings) :
    computeDogecoinBlockTransactionMerkleProofTreeRootHash256 c value siblings index = some root ↔
      txs[index.toNat]? = some value ∧
        IsPath (btcHash256TwoToOne c) txs index.toNat siblings := by
  rw [treeRootHash256_eq]
  exact checkedClimb_eq_some_iff tree distinct count injective

/-- Exactly the true paths of the transactions of a block are accepted, by all three functions. -/
theorem block_transaction_proof_iff {siblings : List QHash256}
    (tree : HasRoot (btcHash256TwoToOne c) txs k root) (distinct : txs.Nodup)
    (count : siblings.length = k) (injective : NoCollision c txs k value index siblings) :
    (computeDogecoinBlockTransactionMerkleProofTreeRootHash256 c value siblings index = some root ↔
        index.toNat < txs.length ∧ txs[index.toNat]? = some value ∧
          IsPath (btcHash256TwoToOne c) txs index.toNat siblings) ∧
      computeDogecoinBlockTransactionMerkleProofTreeRootInMemory c value
          (siblings.flatMap Vector.toList) index k =
        computeDogecoinBlockTransactionMerkleProofTreeRootHash256 c value siblings index ∧
      ((⟨root, value, index.toUInt64, siblings⟩ : MerkleProofCore QHash256).verifyBtcBlockTxTree
          (btcHash256TwoToOne c) = true ↔
        computeDogecoinBlockTransactionMerkleProofTreeRootHash256 c value siblings index =
          some root) := by
  refine ⟨?_, ?_, ?_⟩
  · rw [treeRootHash256_eq_some_iff tree distinct count injective]
    constructor
    · rintro ⟨hvalue, hpath⟩
      exact ⟨(List.getElem?_eq_some_iff.mp hvalue).1, hvalue, hpath⟩
    · rintro ⟨-, hvalue, hpath⟩
      exact ⟨hvalue, hpath⟩
  · have hbytes : (siblings.flatMap Vector.toList).length = 32 * siblings.length := by
      rw [List.length_flatMap]
      simp [Nat.mul_comm]
    have hlong : ¬ (siblings.flatMap Vector.toList).length < 32 * k := by omega
    rw [treeRootInMemory_eq, if_neg hlong, ← count, hashesOf_flatMap]
  · rw [verifyBtcBlockTxTree_iff, treeRootHash256_eq, UInt32.toNat_toUInt64]

theorem hasRoot_two (c : Crypto) (a b : QHash256) :
    HasRoot (btcHash256TwoToOne c) [a, b] 1 (btcHash256TwoToOne c a b) :=
  .level (Nat.le_refl 2) (.leaf _)

theorem noCollision_two {a b v s : QHash256} (hpair : stepPair v index.toNat s = (a, b)) :
    NoCollision c [a, b] 1 v index [s] := by
  have honly : treePairs (btcHash256TwoToOne c) 1 [a, b] ∪
      climbPairs (btcHash256TwoToOne c) v index.toNat [s] ⊆ {(a, b)} := by
    rintro q ((hq | hq) | hq)
    · exact List.mem_singleton.mp hq
    · exact absurd hq (Set.notMem_empty q)
    · rcases hq with hq | hq
      · exact hq.trans hpair
      · exact absurd hq (Set.notMem_empty q)
  exact (Set.subsingleton_singleton.anti honly).injOn _

/-- The second of two transactions. -/
theorem second_transaction_accepted :
    computeDogecoinBlockTransactionMerkleProofTreeRootHash256 crypto (Vector.replicate 32 2)
      [zeroBytes] 1 = some (btcHash256TwoToOne crypto zeroBytes (Vector.replicate 32 2)) := by
  have hdistinct : [zeroBytes, Vector.replicate 32 2].Nodup := by decide
  exact (block_transaction_proof_iff (hasRoot_two _ _ _) hdistinct rfl
    (noCollision_two rfl)).1.mpr ⟨by decide, rfl, rfl, trivial⟩

structure Undercounts (c : Crypto) (txs : List QHash256) (k : ℕ) (value : QHash256)
    (siblings : Bytes) (index claimed : UInt32) : Prop where
  fewer : claimed.toNat < txs.length
  last : index.toNat + 1 = claimed.toNat
  long : 32 * k ≤ siblings.length
  leaf : txs[index.toNat]? = some value
  path : IsPath (btcHash256TwoToOne c) txs index.toNat (hashesOf siblings k)

theorem lastTransaction_eq_some_iff {siblings : Bytes} {claimed : UInt32}
    (tree : HasRoot (btcHash256TwoToOne c) txs k root) (distinct : txs.Nodup)
    (injective : NoCollision c txs k value index (hashesOf siblings k)) :
    computeDogecoinLastTransactionInBlockMerkleRootInMemory c value siblings index claimed k =
        some root ↔
      index.toNat + 1 = claimed.toNat ∧ 32 * k ≤ siblings.length ∧
        txs[index.toNat]? = some value ∧
        IsPath (btcHash256TwoToOne c) txs index.toNat (hashesOf siblings k) := by
  have hlast : (claimed ≠ 0 ∧ index = claimed - 1) ↔ index.toNat + 1 = claimed.toNat := by
    have hzero : (0 : UInt32).toNat = 0 := rfl
    have hone : (1 : UInt32).toNat = 1 := rfl
    have hlt := claimed.toNat_lt
    have hlt' := index.toNat_lt
    rw [ne_eq, ← UInt32.toNat_inj, ← UInt32.toNat_inj, UInt32.toNat_sub, hzero, hone]
    omega
  rw [← treeRootHash256_eq_some_iff tree distinct hashesOf_length injective, ← hlast,
    computeDogecoinLastTransactionInBlockMerkleRootInMemory, treeRootInMemory_eq]
  by_cases hzero : claimed = 0
  · simp [hzero]
  · by_cases hindex : index = claimed - 1
    · by_cases hlong : 32 * k ≤ siblings.length
      · simp [hzero, hindex, hlong]
      · simp [hzero, hindex, hlong]
    · simp [hzero, hindex]

/-- What is accepted is the last transaction with the right count, unless it is the path of an
earlier transaction with a count that ends there: a sibling on the right is not looked at. -/
theorem last_transaction_iff {siblings : Bytes} {claimed : UInt32}
    (tree : HasRoot (btcHash256TwoToOne c) txs k root) (distinct : txs.Nodup)
    (injective : NoCollision c txs k value index (hashesOf siblings k)) :
    (computeDogecoinLastTransactionInBlockMerkleRootInMemory c value siblings index claimed k =
          some root →
        claimed.toNat = txs.length ∧ txs.getLast? = some value) ↔
      ¬ Undercounts c txs k value siblings index claimed := by
  rw [lastTransaction_eq_some_iff tree distinct injective]
  constructor
  · intro hright hunder
    have hcount := (hright ⟨hunder.last, hunder.long, hunder.leaf, hunder.path⟩).1
    have hfewer := hunder.fewer
    omega
  · rintro hunder ⟨hlast, hlong, hleaf, hpath⟩
    have hinside := (List.getElem?_eq_some_iff.mp hleaf).1
    have hcount : claimed.toNat = txs.length := by
      by_contra hne
      exact hunder ⟨by omega, hlast, hlong, hleaf, hpath⟩
    refine ⟨hcount, ?_⟩
    rw [List.getLast?_eq_getElem?, ← hcount, ← hlast, Nat.add_sub_cancel]
    exact hleaf

theorem hashesOf_single (h : QHash256) : hashesOf h.toList 1 = [h] := by
  have hbytes := hashesOf_flatMap [h]
  rwa [List.flatMap_singleton] at hbytes

/-- The true count and the last of two transactions. -/
theorem last_of_two :
    computeDogecoinLastTransactionInBlockMerkleRootInMemory crypto (Vector.replicate 32 2)
        zeroBytes.toList 1 2 1 = some
          (btcHash256TwoToOne crypto zeroBytes (Vector.replicate 32 2)) ∧
      (2 : UInt32).toNat = [zeroBytes, Vector.replicate 32 2].length ∧
        [zeroBytes, Vector.replicate 32 2].getLast? = some (Vector.replicate 32 2) := by
  have hdistinct : [zeroBytes, Vector.replicate 32 2].Nodup := by decide
  have hinjective : NoCollision crypto [zeroBytes, Vector.replicate 32 2] 1 (Vector.replicate 32 2)
      1 (hashesOf zeroBytes.toList 1) := by
    rw [hashesOf_single]
    exact noCollision_two rfl
  have haccepted : computeDogecoinLastTransactionInBlockMerkleRootInMemory crypto
      (Vector.replicate 32 2) zeroBytes.toList 1 2 1 =
        some (btcHash256TwoToOne crypto zeroBytes (Vector.replicate 32 2)) := by
    refine (lastTransaction_eq_some_iff (hasRoot_two _ _ _) hdistinct hinjective).mpr
      ⟨rfl, by decide, rfl, ?_⟩
    rw [hashesOf_single]
    exact ⟨rfl, trivial⟩
  refine ⟨haccepted, (last_transaction_iff (hasRoot_two _ _ _) hdistinct hinjective).mpr ?_
    haccepted⟩
  intro hunder
  exact absurd hunder.fewer (by decide)

/-- The first of two transactions passes for the last one of a block with one. -/
theorem first_passes_for_last :
    HasRoot (btcHash256TwoToOne crypto) [zeroBytes, Vector.replicate 32 2] 1
        (btcHash256TwoToOne crypto zeroBytes (Vector.replicate 32 2)) ∧
      [zeroBytes, Vector.replicate 32 2].Nodup ∧
      NoCollision crypto [zeroBytes, Vector.replicate 32 2] 1 zeroBytes 0
        (hashesOf (Vector.replicate 32 (2 : UInt8)).toList 1) ∧
      computeDogecoinLastTransactionInBlockMerkleRootInMemory crypto zeroBytes
        (Vector.replicate 32 (2 : UInt8)).toList 0 1 1 =
          some (btcHash256TwoToOne crypto zeroBytes (Vector.replicate 32 2)) := by
  have hdistinct : [zeroBytes, Vector.replicate 32 2].Nodup := by decide
  have hinjective : NoCollision crypto [zeroBytes, Vector.replicate 32 2] 1 zeroBytes 0
      (hashesOf (Vector.replicate 32 (2 : UInt8)).toList 1) := by
    rw [hashesOf_single]
    exact noCollision_two rfl
  refine ⟨hasRoot_two _ _ _, hdistinct, hinjective, ?_⟩
  refine (lastTransaction_eq_some_iff (hasRoot_two _ _ _) hdistinct hinjective).mpr
    ⟨rfl, ?_, rfl, ?_⟩
  · decide
  · rw [hashesOf_single]
    exact ⟨rfl, trivial⟩

end Blocks

end BlockTransactions
