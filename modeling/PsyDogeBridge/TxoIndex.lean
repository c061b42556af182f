import PsyDogeBridge.ProgramState

/-! The positions of transaction outputs: a block number, the number of a transaction in its block
and the number of an output in its transaction, packed into one index. -/
namespace TxoIndex


def TXO_TREE_INDEX_BITS_BLOCK_NUM_LENGTH : UInt64 := 28
def TXO_TREE_INDEX_BITS_TX_NUM_LENGTH : UInt64 := 13
def TXO_TREE_INDEX_BITS_TOP_OUTPUT_NUM_LENGTH : UInt64 := 4
def TXO_TREE_LEAF_BIT_INDEX_LENGTH : UInt64 := 8
def TXO_TREE_COMBINED_INDEX_BITS_OUTPUT_NUM_LENGTH : UInt64 :=
  TXO_TREE_INDEX_BITS_TOP_OUTPUT_NUM_LENGTH + TXO_TREE_LEAF_BIT_INDEX_LENGTH
def TXO_MERKLE_INDEX_TOTAL_BITS : UInt64 :=
  TXO_TREE_INDEX_BITS_BLOCK_NUM_LENGTH + TXO_TREE_INDEX_BITS_TX_NUM_LENGTH +
    TXO_TREE_INDEX_BITS_TOP_OUTPUT_NUM_LENGTH
def TXO_COMBINED_INDEX_TOTAL_BITS : UInt64 :=
  TXO_TREE_INDEX_BITS_BLOCK_NUM_LENGTH + TXO_TREE_INDEX_BITS_TX_NUM_LENGTH +
    TXO_TREE_COMBINED_INDEX_BITS_OUTPUT_NUM_LENGTH

def TXO_MERKLE_INDEX_MASK : UInt64 := 1 <<< TXO_MERKLE_INDEX_TOTAL_BITS - 1
def TXO_COMBINED_INDEX_MASK : UInt64 := 1 <<< TXO_COMBINED_INDEX_TOTAL_BITS - 1
def TXO_TREE_INDEX_BLOCK_NUM_LOWERED_MASK : UInt64 := 1 <<< TXO_TREE_INDEX_BITS_BLOCK_NUM_LENGTH - 1
def TXO_TREE_INDEX_TX_NUM_LOWERED_MASK : UInt64 := 1 <<< TXO_TREE_INDEX_BITS_TX_NUM_LENGTH - 1
def TXO_TREE_INDEX_OUTPUT_NUM_LOWERED_MASK : UInt64 :=
  1 <<< TXO_TREE_COMBINED_INDEX_BITS_OUTPUT_NUM_LENGTH - 1

def isValidTxoCombinedIndex (index : UInt64) : Bool := index &&& TXO_COMBINED_INDEX_MASK == index

def isValidTxoMerkleIndex (index : UInt64) : Bool := index &&& TXO_MERKLE_INDEX_MASK == index

/-- The shifts are those of the combined index. -/
def getTxoMerkleIndex (blockNum : UInt32) (txNum : UInt16) (outputLeafIndex : UInt8) : UInt64 :=
  blockNum.toUInt64 <<<
      (TXO_TREE_INDEX_BITS_TX_NUM_LENGTH + TXO_TREE_COMBINED_INDEX_BITS_OUTPUT_NUM_LENGTH) |||
    txNum.toUInt64 <<< TXO_TREE_COMBINED_INDEX_BITS_OUTPUT_NUM_LENGTH |||
    outputLeafIndex.toUInt64

def getTxoMerkleIndexAndBitIndex (blockNum : UInt32) (txNum outputIndexInTx : UInt16) :
    UInt64 × UInt8 :=
  (getTxoMerkleIndex blockNum txNum (outputIndexInTx >>> 8).toUInt8,
    (outputIndexInTx &&& 0xFF).toUInt8)

def getTxoCombinedIndex (blockNum : UInt32) (txNum outputIndexInTx : UInt16) : UInt64 :=
  blockNum.toUInt64 <<<
      (TXO_TREE_INDEX_BITS_TX_NUM_LENGTH + TXO_TREE_COMBINED_INDEX_BITS_OUTPUT_NUM_LENGTH) |||
    txNum.toUInt64 <<< TXO_TREE_COMBINED_INDEX_BITS_OUTPUT_NUM_LENGTH |||
    outputIndexInTx.toUInt64

def getTxoCombinedIndexForMerkleIndexBitIndex (blockNum : UInt32) (txNum : UInt16)
    (outputMerkleIndex outputBitIndex : UInt8) : UInt64 :=
  blockNum.toUInt64 <<<
      (TXO_TREE_INDEX_BITS_TX_NUM_LENGTH + TXO_TREE_COMBINED_INDEX_BITS_OUTPUT_NUM_LENGTH) |||
    txNum.toUInt64 <<< TXO_TREE_COMBINED_INDEX_BITS_OUTPUT_NUM_LENGTH |||
    (outputMerkleIndex.toUInt64 <<< 8 ||| outputBitIndex.toUInt64)

def getTxoBlockNumberTxNumberOutputIndexFromCombinedIndex (index : UInt64) :
    UInt32 × UInt16 × UInt16 :=
  ((index >>> (TXO_TREE_INDEX_BITS_TX_NUM_LENGTH +
      TXO_TREE_COMBINED_INDEX_BITS_OUTPUT_NUM_LENGTH) &&&
      TXO_TREE_INDEX_BLOCK_NUM_LOWERED_MASK).toUInt32,
    (index >>> TXO_TREE_COMBINED_INDEX_BITS_OUTPUT_NUM_LENGTH &&&
      TXO_TREE_INDEX_TX_NUM_LOWERED_MASK).toUInt16,
    (index &&& TXO_TREE_INDEX_OUTPUT_NUM_LOWERED_MASK).toUInt16)

def isValidBlockNumTxNumOutputIndex (blockNum : UInt32) (txNum outputIndexInTx : UInt16) : Bool :=
  blockNum &&& TXO_TREE_INDEX_BLOCK_NUM_LOWERED_MASK.toUInt32 == blockNum &&
    txNum &&& TXO_TREE_INDEX_TX_NUM_LOWERED_MASK.toUInt16 == txNum &&
    outputIndexInTx &&& TXO_TREE_INDEX_OUTPUT_NUM_LOWERED_MASK.toUInt16 == outputIndexInTx

def getOutputInTxMerkleIndexBitIndex (outputIndexInTx : UInt16) : UInt8 × UInt8 :=
  ((outputIndexInTx >>> 8).toUInt8, (outputIndexInTx &&& 0xFF).toUInt8)

def getTxoMerkleIndexAndLeafBitIndexFromCombinedIndex (combinedIndex : UInt64) : UInt64 × UInt8 :=
  (combinedIndex >>> TXO_TREE_LEAF_BIT_INDEX_LENGTH,
    (combinedIndex &&& (1 <<< TXO_TREE_LEAF_BIT_INDEX_LENGTH - 1)).toUInt8)

section Naturals

variable {b : UInt32} {t o : UInt16} {index : UInt64}

theorem packed_toNat {x : UInt64} (ht : t.toNat < 2 ^ 13) (hx : x.toNat < 2 ^ 12) :
    (b.toUInt64 <<< (TXO_TREE_INDEX_BITS_TX_NUM_LENGTH +
        TXO_TREE_COMBINED_INDEX_BITS_OUTPUT_NUM_LENGTH) |||
      t.toUInt64 <<< TXO_TREE_COMBINED_INDEX_BITS_OUTPUT_NUM_LENGTH ||| x).toNat =
        b.toNat * 2 ^ 25 + t.toNat * 2 ^ 12 + x.toNat := by
  have hb := b.toNat_lt
  have hblock : (b.toUInt64 <<< (TXO_TREE_INDEX_BITS_TX_NUM_LENGTH +
      TXO_TREE_COMBINED_INDEX_BITS_OUTPUT_NUM_LENGTH)).toNat = b.toNat <<< 25 := by
    rw [UInt64.toNat_shiftLeft, UInt32.toNat_toUInt64]
    change b.toNat <<< 25 % 2 ^ 64 = _
    rw [Nat.shiftLeft_eq]
    omega
  have htx : (t.toUInt64 <<< TXO_TREE_COMBINED_INDEX_BITS_OUTPUT_NUM_LENGTH).toNat =
      t.toNat <<< 12 := by
    rw [UInt64.toNat_shiftLeft, UInt16.toNat_toUInt64]
    change t.toNat <<< 12 % 2 ^ 64 = _
    rw [Nat.shiftLeft_eq]
    omega
  have hlow : t.toNat <<< 12 < 2 ^ 25 := by
    rw [Nat.shiftLeft_eq]
    omega
  have htop : b.toNat <<< 25 ||| t.toNat <<< 12 = (b.toNat * 2 ^ 13 + t.toNat) <<< 12 := by
    rw [← Nat.shiftLeft_add_eq_or_of_lt hlow, Nat.shiftLeft_eq, Nat.shiftLeft_eq, Nat.shiftLeft_eq]
    omega
  rw [UInt64.toNat_or, UInt64.toNat_or, hblock, htx, htop,
    ← Nat.shiftLeft_add_eq_or_of_lt hx, Nat.shiftLeft_eq]
  omega

theorem isValidTxoCombinedIndex_iff :
    isValidTxoCombinedIndex index = true ↔ index.toNat < 2 ^ 53 := by
  have hmask : (index &&& TXO_COMBINED_INDEX_MASK).toNat = index.toNat % 2 ^ 53 :=
    Nat.and_two_pow_sub_one_eq_mod index.toNat 53
  rw [isValidTxoCombinedIndex, beq_iff_eq, ← UInt64.toNat_inj, hmask]
  omega

theorem isValidTxoMerkleIndex_iff : isValidTxoMerkleIndex index = true ↔ index.toNat < 2 ^ 45 := by
  have hmask : (index &&& TXO_MERKLE_INDEX_MASK).toNat = index.toNat % 2 ^ 45 :=
    Nat.and_two_pow_sub_one_eq_mod index.toNat 45
  rw [isValidTxoMerkleIndex, beq_iff_eq, ← UInt64.toNat_inj, hmask]
  omega

theorem isValidBlockNumTxNumOutputIndex_iff :
    isValidBlockNumTxNumOutputIndex b t o = true ↔
      b.toNat < 2 ^ 28 ∧ t.toNat < 2 ^ 13 ∧ o.toNat < 2 ^ 12 := by
  have hb : (b &&& TXO_TREE_INDEX_BLOCK_NUM_LOWERED_MASK.toUInt32).toNat = b.toNat % 2 ^ 28 :=
    Nat.and_two_pow_sub_one_eq_mod b.toNat 28
  have ht : (t &&& TXO_TREE_INDEX_TX_NUM_LOWERED_MASK.toUInt16).toNat = t.toNat % 2 ^ 13 :=
    Nat.and_two_pow_sub_one_eq_mod t.toNat 13
  have ho : (o &&& TXO_TREE_INDEX_OUTPUT_NUM_LOWERED_MASK.toUInt16).toNat = o.toNat % 2 ^ 12 :=
    Nat.and_two_pow_sub_one_eq_mod o.toNat 12
  rw [isValidBlockNumTxNumOutputIndex, Bool.and_eq_true, Bool.and_eq_true, beq_iff_eq, beq_iff_eq,
    beq_iff_eq, ← UInt32.toNat_inj, ← UInt16.toNat_inj, ← UInt16.toNat_inj, hb, ht, ho]
  omega

theorem getTxoCombinedIndex_toNat (ht : t.toNat < 2 ^ 13) (ho : o.toNat < 2 ^ 12) :
    (getTxoCombinedIndex b t o).toNat = b.toNat * 2 ^ 25 + t.toNat * 2 ^ 12 + o.toNat := by
  have ho' : o.toUInt64.toNat < 2 ^ 12 := UInt16.toNat_toUInt64 o ▸ ho
  rw [getTxoCombinedIndex, packed_toNat ht ho', UInt16.toNat_toUInt64]

theorem decoded_toNat (index : UInt64) :
    (getTxoBlockNumberTxNumberOutputIndexFromCombinedIndex index).1.toNat =
        index.toNat / 2 ^ 25 % 2 ^ 28 ∧
      (getTxoBlockNumberTxNumberOutputIndexFromCombinedIndex index).2.1.toNat =
        index.toNat / 2 ^ 12 % 2 ^ 13 ∧
      (getTxoBlockNumberTxNumberOutputIndexFromCombinedIndex index).2.2.toNat =
        index.toNat % 2 ^ 12 := by
  have hb : (index >>> (TXO_TREE_INDEX_BITS_TX_NUM_LENGTH +
      TXO_TREE_COMBINED_INDEX_BITS_OUTPUT_NUM_LENGTH) &&&
        TXO_TREE_INDEX_BLOCK_NUM_LOWERED_MASK).toNat = index.toNat / 2 ^ 25 % 2 ^ 28 := by
    rw [UInt64.toNat_and, UInt64.toNat_shiftRight]
    change index.toNat >>> 25 &&& (2 ^ 28 - 1) = _
    rw [Nat.and_two_pow_sub_one_eq_mod, Nat.shiftRight_eq_div_pow]
  have ht : (index >>> TXO_TREE_COMBINED_INDEX_BITS_OUTPUT_NUM_LENGTH &&&
      TXO_TREE_INDEX_TX_NUM_LOWERED_MASK).toNat = index.toNat / 2 ^ 12 % 2 ^ 13 := by
    rw [UInt64.toNat_and, UInt64.toNat_shiftRight]
    change index.toNat >>> 12 &&& (2 ^ 13 - 1) = _
    rw [Nat.and_two_pow_sub_one_eq_mod, Nat.shiftRight_eq_div_pow]
  have ho : (index &&& TXO_TREE_INDEX_OUTPUT_NUM_LOWERED_MASK).toNat = index.toNat % 2 ^ 12 :=
    Nat.and_two_pow_sub_one_eq_mod index.toNat 12
  dsimp only [getTxoBlockNumberTxNumberOutputIndexFromCombinedIndex]
  rw [UInt64.toNat_toUInt32, UInt64.toNat_toUInt16, UInt64.toNat_toUInt16, hb, ht, ho]
  omega

theorem split_toNat (o : UInt16) (ho : o.toNat < 2 ^ 12) :
    (o >>> 8).toUInt8.toNat = o.toNat / 2 ^ 8 ∧ (o &&& 0xFF).toUInt8.toNat = o.toNat % 2 ^ 8 := by
  have hleaf : (o >>> 8).toNat = o.toNat / 2 ^ 8 := by
    rw [UInt16.toNat_shiftRight]
    change o.toNat >>> 8 = _
    rw [Nat.shiftRight_eq_div_pow]
  have hbit : (o &&& 0xFF).toNat = o.toNat % 2 ^ 8 := Nat.and_two_pow_sub_one_eq_mod o.toNat 8
  rw [UInt16.toNat_toUInt8, UInt16.toNat_toUInt8, hleaf, hbit]
  omega

end Naturals

section Leaves

variable {b : UInt32} {t o : UInt16}

theorem merkleIndexAndBitIndex_toNat (ht : t.toNat < 2 ^ 13) (ho : o.toNat < 2 ^ 12) :
    (getTxoMerkleIndexAndBitIndex b t o).1.toNat =
        b.toNat * 2 ^ 25 + t.toNat * 2 ^ 12 + o.toNat / 2 ^ 8 ∧
      (getTxoMerkleIndexAndBitIndex b t o).2.toNat = o.toNat % 2 ^ 8 := by
  obtain ⟨hleaf, hbit⟩ := split_toNat o ho
  have hsmall : (o >>> 8).toUInt8.toUInt64.toNat < 2 ^ 12 := by
    rw [UInt8.toNat_toUInt64, hleaf]
    omega
  refine ⟨?_, hbit⟩
  rw [getTxoMerkleIndexAndBitIndex, getTxoMerkleIndex, packed_toNat ht hsmall, UInt8.toNat_toUInt64,
    hleaf]

theorem leafOfCombinedIndex_toNat (index : UInt64) :
    (getTxoMerkleIndexAndLeafBitIndexFromCombinedIndex index).1.toNat = index.toNat / 2 ^ 8 ∧
      (getTxoMerkleIndexAndLeafBitIndexFromCombinedIndex index).2.toNat = index.toNat % 2 ^ 8 := by
  have hbit : (index &&& (1 <<< TXO_TREE_LEAF_BIT_INDEX_LENGTH - 1)).toNat = index.toNat % 2 ^ 8 :=
    Nat.and_two_pow_sub_one_eq_mod index.toNat 8
  dsimp only [getTxoMerkleIndexAndLeafBitIndexFromCombinedIndex]
  refine ⟨?_, ?_⟩
  · rw [UInt64.toNat_shiftRight]
    change index.toNat >>> 8 = _
    rw [Nat.shiftRight_eq_div_pow]
  · rw [UInt64.toNat_toUInt8, hbit]
    omega

/-- The two ways to the leaf of an output agree on the outputs of the first transaction of the
first block, and on no others. -/
theorem leaf_routes_agree_iff (valid : isValidBlockNumTxNumOutputIndex b t o = true) :
    (getTxoMerkleIndexAndBitIndex b t o =
          getTxoMerkleIndexAndLeafBitIndexFromCombinedIndex (getTxoCombinedIndex b t o) ∧
        isValidTxoMerkleIndex (getTxoMerkleIndexAndBitIndex b t o).1 = true) ↔ b = 0 ∧ t = 0 := by
  obtain ⟨-, ht, ho⟩ := isValidBlockNumTxNumOutputIndex_iff.mp valid
  obtain ⟨hindex, hbit⟩ : (getTxoMerkleIndexAndBitIndex b t o).1.toNat =
      b.toNat * 2 ^ 25 + t.toNat * 2 ^ 12 + o.toNat / 2 ^ 8 ∧ _ :=
        merkleIndexAndBitIndex_toNat ht ho
  obtain ⟨hleaf, hleafBit⟩ := leafOfCombinedIndex_toNat (getTxoCombinedIndex b t o)
  have hcombined : (getTxoCombinedIndex b t o).toNat =
      b.toNat * 2 ^ 25 + t.toNat * 2 ^ 12 + o.toNat := getTxoCombinedIndex_toNat ht ho
  rw [Prod.ext_iff, ← UInt64.toNat_inj, ← UInt8.toNat_inj, isValidTxoMerkleIndex_iff, hindex, hbit,
    hleaf, hleafBit, hcombined, ← UInt32.toNat_inj, ← UInt16.toNat_inj]
  change _ ↔ b.toNat = 0 ∧ t.toNat = 0
  omega

/-- Output 2800 of the first transaction of the first block. -/
theorem first_transaction_agrees :
    getTxoMerkleIndexAndBitIndex 0 0 2800 =
        getTxoMerkleIndexAndLeafBitIndexFromCombinedIndex (getTxoCombinedIndex 0 0 2800) ∧
      isValidTxoMerkleIndex (getTxoMerkleIndexAndBitIndex 0 0 2800).1 = true :=
  (leaf_routes_agree_iff (by decide)).mpr ⟨rfl, rfl⟩

/-- The first output of block 2 ^ 20: one way leads to a leaf outside the tree. -/
theorem leaf_outside_tree :
    isValidBlockNumTxNumOutputIndex 1048576 0 0 = true ∧
      getTxoMerkleIndexAndBitIndex 1048576 0 0 = (35184372088832, 0) ∧
      getTxoMerkleIndexAndLeafBitIndexFromCombinedIndex (getTxoCombinedIndex 1048576 0 0) =
        (137438953472, 0) ∧
      isValidTxoMerkleIndex 35184372088832 = false := by
  decide

end Leaves

section Bijection

variable {b b' : UInt32} {t t' o o' : UInt16} {index : UInt64}

theorem decoded_valid (valid : isValidTxoCombinedIndex index = true) :
    let (b, t, o) := getTxoBlockNumberTxNumberOutputIndexFromCombinedIndex index
    isValidBlockNumTxNumOutputIndex b t o = true ∧ getTxoCombinedIndex b t o = index := by
  have hindex := isValidTxoCombinedIndex_iff.mp valid
  obtain ⟨hblock, htx, hout⟩ := decoded_toNat index
  generalize (getTxoBlockNumberTxNumberOutputIndexFromCombinedIndex index) =
    triple at hblock htx hout
  obtain ⟨b, t, o⟩ := triple
  dsimp only at hblock htx hout ⊢
  have ht : t.toNat < 2 ^ 13 := by omega
  have ho : o.toNat < 2 ^ 12 := by omega
  rw [isValidBlockNumTxNumOutputIndex_iff, ← UInt64.toNat_inj, getTxoCombinedIndex_toNat ht ho]
  omega

theorem decoded_injective {index' : UInt64} (valid : isValidTxoCombinedIndex index = true)
    (valid' : isValidTxoCombinedIndex index' = true)
    (heq : getTxoBlockNumberTxNumberOutputIndexFromCombinedIndex index =
      getTxoBlockNumberTxNumberOutputIndexFromCombinedIndex index') : index = index' := by
  have hindex := isValidTxoCombinedIndex_iff.mp valid
  have hindex' := isValidTxoCombinedIndex_iff.mp valid'
  obtain ⟨hblock, htx, hout⟩ := decoded_toNat index
  obtain ⟨hblock', htx', hout'⟩ := decoded_toNat index'
  rw [heq] at hblock htx hout
  apply UInt64.toNat_inj.mp
  omega

/-- The order of the outputs: by block, then by transaction, then by output. -/
def Precedes (x y : UInt32 × UInt16 × UInt16) : Prop :=
  x.1 < y.1 ∨ x.1 = y.1 ∧ (x.2.1 < y.2.1 ∨ x.2.1 = y.2.1 ∧ x.2.2 < y.2.2)

section

variable (valid : isValidBlockNumTxNumOutputIndex b t o = true)
include valid

theorem combined_valid :
    isValidTxoCombinedIndex (getTxoCombinedIndex b t o) = true ∧
      getTxoBlockNumberTxNumberOutputIndexFromCombinedIndex (getTxoCombinedIndex b t o) =
        (b, t, o) := by
  obtain ⟨hb, ht, ho⟩ := isValidBlockNumTxNumOutputIndex_iff.mp valid
  have hcombined : (getTxoCombinedIndex b t o).toNat =
      b.toNat * 2 ^ 25 + t.toNat * 2 ^ 12 + o.toNat := getTxoCombinedIndex_toNat ht ho
  obtain ⟨hblock, htx, hout⟩ := decoded_toNat (getTxoCombinedIndex b t o)
  rw [isValidTxoCombinedIndex_iff, Prod.ext_iff, Prod.ext_iff, ← UInt32.toNat_inj,
    ← UInt16.toNat_inj, ← UInt16.toNat_inj, hblock, htx, hout, hcombined]
  dsimp only
  omega

theorem combined_lt_iff (valid' : isValidBlockNumTxNumOutputIndex b' t' o' = true) :
    getTxoCombinedIndex b t o < getTxoCombinedIndex b' t' o' ↔ Precedes (b, t, o) (b', t', o') := by
  obtain ⟨-, ht, ho⟩ := isValidBlockNumTxNumOutputIndex_iff.mp valid
  obtain ⟨-, ht', ho'⟩ := isValidBlockNumTxNumOutputIndex_iff.mp valid'
  rw [UInt64.lt_iff_toNat_lt, getTxoCombinedIndex_toNat ht ho, getTxoCombinedIndex_toNat ht' ho']
  simp only [Precedes, UInt32.lt_iff_toNat_lt, UInt16.lt_iff_toNat_lt, ← UInt32.toNat_inj,
    ← UInt16.toNat_inj]
  omega

theorem combined_of_split :
    getTxoCombinedIndexForMerkleIndexBitIndex b t (getOutputInTxMerkleIndexBitIndex o).1
      (getOutputInTxMerkleIndexBitIndex o).2 = getTxoCombinedIndex b t o := by
  obtain ⟨-, ht, ho⟩ := isValidBlockNumTxNumOutputIndex_iff.mp valid
  obtain ⟨hleaf, hbit⟩ := split_toNat o ho
  have hsplit : ((o >>> 8).toUInt8.toUInt64 <<< 8 ||| (o &&& 0xFF).toUInt8.toUInt64).toNat =
      o.toNat := by
    have hhigh : ((o >>> 8).toUInt8.toUInt64 <<< 8).toNat = (o.toNat / 2 ^ 8) <<< 8 := by
      rw [UInt64.toNat_shiftLeft, UInt8.toNat_toUInt64, hleaf]
      change (o.toNat / 2 ^ 8) <<< 8 % 2 ^ 64 = _
      rw [Nat.shiftLeft_eq]
      omega
    have hlow : o.toNat % 2 ^ 8 < 2 ^ 8 := Nat.mod_lt _ (by decide)
    rw [UInt64.toNat_or, hhigh, UInt8.toNat_toUInt64, hbit, ← Nat.shiftLeft_add_eq_or_of_lt hlow,
      Nat.shiftLeft_eq]
    omega
  rw [← UInt64.toNat_inj, getTxoCombinedIndex_toNat ht ho]
  dsimp only [getTxoCombinedIndexForMerkleIndexBitIndex, getOutputInTxMerkleIndexBitIndex]
  rw [packed_toNat ht (hsplit ▸ ho), hsplit]

end

/-- Valid positions and valid indices correspond to each other, in the same order. -/
theorem combined_index_bijection :
    (∀ b t o, isValidBlockNumTxNumOutputIndex b t o = true →
      isValidTxoCombinedIndex (getTxoCombinedIndex b t o) = true ∧
        getTxoBlockNumberTxNumberOutputIndexFromCombinedIndex (getTxoCombinedIndex b t o) =
          (b, t, o)) ∧
    (∀ index, isValidTxoCombinedIndex index = true →
      let (b, t, o) := getTxoBlockNumberTxNumberOutputIndexFromCombinedIndex index
      isValidBlockNumTxNumOutputIndex b t o = true ∧ getTxoCombinedIndex b t o = index) ∧
    (∀ b t o b' t' o', isValidBlockNumTxNumOutputIndex b t o = true →
      isValidBlockNumTxNumOutputIndex b' t' o' = true →
      (getTxoCombinedIndex b t o < getTxoCombinedIndex b' t' o' ↔
        Precedes (b, t, o) (b', t', o'))) ∧
    ∀ b t o, isValidBlockNumTxNumOutputIndex b t o = true →
      getTxoCombinedIndexForMerkleIndexBitIndex b t (getOutputInTxMerkleIndexBitIndex o).1
        (getOutputInTxMerkleIndexBitIndex o).2 = getTxoCombinedIndex b t o :=
  ⟨fun _ _ _ => combined_valid, fun _ => decoded_valid, fun _ _ _ _ _ _ => combined_lt_iff,
    fun _ _ _ => combined_of_split⟩

/-- An output in 450 years. -/
theorem far_output_round_trip :
    getTxoBlockNumberTxNumberOutputIndexFromCombinedIndex
        (getTxoCombinedIndex 236520000 6000 2800) = (236520000, 6000, 2800) ∧
      getTxoCombinedIndex 236520000 6000 2800 < getTxoCombinedIndex 236520000 6001 0 :=
  ⟨(combined_index_bijection.1 236520000 6000 2800 (by decide)).2,
    (combined_index_bijection.2.2.1 236520000 6000 2800 236520000 6001 0 (by decide)
      (by decide)).mpr (.inr ⟨rfl, .inl (by decide)⟩)⟩

end Bijection

end TxoIndex
