import PsyDogeBridge.MerkleProofs
import PsyDogeBridge.RevertedTree

/-! The proofs that the append-only tree gives for its next leaf and for its last one, and the tree
built again from the siblings that it keeps. -/
namespace AppendProofs

open BridgeData AppendTree MerkleTree AppendHistory MerkleProofs FailedReverts RevertedTree
  BlockTransactions

structure FixedMerkleAppendTreeDeltaPartialMerkleProof where
  newValue : QHash256
  oldValue : QHash256
  index : UInt64
  siblings : Vector QHash256 TREE_HEIGHT
  deriving DecidableEq

/-- The root is computed with an assertion on the index. -/
def new (c : Crypto) (nextIndex : UInt64) (nextSiblings : Vector QHash256 TREE_HEIGHT) :
    Option FixedMerkleAppendTree := do
  if nextIndex = 0 then some .newEmpty
  else
    let root ← computeMerkleRoot c zeroBytes nextIndex nextSiblings.toList
    some { nextIndex := nextIndex, currentRoot := root, nextSiblings := nextSiblings }

section

variable (c : Crypto) (t : FixedMerkleAppendTree)

def pushSibling :
    List QHash256 × UInt64 → Fin TREE_HEIGHT → List QHash256 × UInt64
  | (siblings, tempIdx), i =>
    (siblings ++ [if tempIdx &&& 1 = 1 then t.nextSiblings.get i else zeroHash i], tempIdx >>> 1)

def getPartialMerkleProofForCurrentIndex :
    MerkleProofCorePartial QHash256 where
  value := zeroHash 0
  index := t.nextIndex
  siblings := ((List.finRange TREE_HEIGHT).foldl (pushSibling t) ([], t.nextIndex)).1

def getPartialMerkleProofFixedForCurrentIndex :
    FixedMerkleAppendTreePartialMerkleProof where
  index := t.nextIndex
  value := zeroHash 0
  siblings := Vector.ofFn fun i =>
    if (t.nextIndex >>> UInt64.ofNat i) &&& 1 = 1 then t.nextSiblings.get i else zeroHash i

/-- The tree does not keep its last leaf: the value, and with it the root, is a placeholder. -/
def getMerkleProofForCurrentIndex :
    MerkleProofCore QHash256 :=
  if t.nextIndex = 0 then
    .newFromParams (hashTwoToOne c) 0 (zeroHash 0)
      ((List.finRange TREE_HEIGHT).map fun i => zeroHash i)
  else
    let index := t.nextIndex - 1
    .newFromParams (hashTwoToOne c) index (zeroHash 0)
      ((List.finRange TREE_HEIGHT).foldl (pushSibling t) ([], index)).1

def appendDeltaMerkleProof (newValue : QHash256) :
    FixedMerkleAppendTree × DeltaMerkleProofCore QHash256 :=
  let proof := getPartialMerkleProofForCurrentIndex t
  let zeroLeaf := zeroHash 0
  (t.append c newValue,
    .fromParams (hashTwoToOne c) proof.index zeroLeaf newValue proof.siblings)

def appendPartialDeltaMerkleProof (newValue : QHash256) :
    FixedMerkleAppendTree × FixedMerkleAppendTreeDeltaPartialMerkleProof :=
  let proof := getPartialMerkleProofFixedForCurrentIndex t
  let zeroLeaf := zeroHash 0
  (t.append c newValue,
    { newValue := newValue, oldValue := zeroLeaf, index := proof.index,
      siblings := proof.siblings })

end

variable {c : Crypto} {t : FixedMerkleAppendTree} {xs : List QHash256} {v : QHash256}

/-- At a level that the next index takes to the left the tree keeps the zero hash, so that both
getters return what it keeps. -/
theorem kept_or_zero (h : Represents c t xs) (i : Fin TREE_HEIGHT) {bit : Prop} [Decidable bit]
    (hbit : bit ↔ xs.length / 2 ^ i.val % 2 = 1) :
    (if bit then t.nextSiblings.get i else zeroHash i) = t.nextSiblings.get i := by
  by_cases hset : bit
  · rw [if_pos hset]
  · have hclear : ¬ xs.length.testBit i = true :=
      fun hb => hset (hbit.mpr ((testBit_iff _ _).mp hb))
    rw [if_neg hset, h.siblings i, MerkleTree.frontier, if_neg hclear]

def offered (t : FixedMerkleAppendTree) (p : ℕ) (i : Fin TREE_HEIGHT) : QHash256 :=
  if p / 2 ^ i.val % 2 = 1 then t.nextSiblings.get i else zeroHash i

structure AtPush (t : FixedMerkleAppendTree) (p i : ℕ) (s : List QHash256 × UInt64) : Prop where
  siblings : s.1 = ((List.finRange TREE_HEIGHT).map (offered t p)).take i
  tempIdx : s.2.toNat = p / 2 ^ i

theorem AtPush.level {p : ℕ} {i : Fin TREE_HEIGHT} {s : List QHash256 × UInt64}
    (hs : AtPush t p i s) : AtPush t p (i + 1) (pushSibling t s i) := by
  obtain ⟨siblings, tempIdx⟩ := s
  have hbit : tempIdx &&& 1 = 1 ↔ p / 2 ^ i.val % 2 = 1 := by
    rw [and_one_eq_one, hs.tempIdx]
  have hget : ((List.finRange TREE_HEIGHT).map (offered t p))[i.val]? = some (offered t p i) := by
    rw [List.getElem?_map, List.getElem?_eq_getElem (by rw [List.length_finRange]; exact i.isLt),
      List.getElem_finRange]
    rfl
  constructor
  · change siblings ++ [if tempIdx &&& 1 = 1 then t.nextSiblings.get i else zeroHash i] = _
    have hbelow : siblings = ((List.finRange TREE_HEIGHT).map (offered t p)).take i := hs.siblings
    rw [hbelow, List.take_add_one, hget, Option.toList_some, offered]
    simp only [hbit]
  · change (tempIdx >>> 1).toNat = _
    rw [shiftRight_one_toNat, hs.tempIdx, div_pow_succ]

theorem pushed_siblings (t : FixedMerkleAppendTree) (index : UInt64) :
    ((List.finRange TREE_HEIGHT).foldl (pushSibling t) ([], index)).1 =
      (List.finRange TREE_HEIGHT).map (offered t index.toNat) := by
  have hstart : AtPush t index.toNat 0 ([], index) := by
    refine ⟨rfl, ?_⟩
    rw [pow_zero, Nat.div_one]
  have hlast : AtPush t index.toNat TREE_HEIGHT
      ((List.finRange TREE_HEIGHT).foldl (pushSibling t) ([], index)) :=
    CheckedSteps.loop_invariant (P := AtPush t index.toNat) hstart fun i s hs => hs.level
  rw [hlast.siblings, List.take_of_length_le]
  rw [List.length_map, List.length_finRange]

theorem getPartialMerkleProofForCurrentIndex_siblings (h : Represents c t xs) :
    (getPartialMerkleProofForCurrentIndex t).siblings = t.nextSiblings.toList := by
  refine (pushed_siblings t t.nextIndex).trans (List.ext_getElem ?_ ?_)
  · rw [List.length_map, List.length_finRange, Vector.length_toList]
  · intro i hi _
    rw [List.length_map, List.length_finRange] at hi
    rw [List.getElem_map, List.getElem_finRange, Vector.getElem_toList, h.next]
    exact kept_or_zero h ⟨i, hi⟩ Iff.rfl

theorem getPartialMerkleProofFixedForCurrentIndex_siblings (h : Represents c t xs) :
    (getPartialMerkleProofFixedForCurrentIndex t).siblings = t.nextSiblings := by
  refine Vector.ext fun i hi => ?_
  have hi' : i < 32 := hi
  have hbit : (t.nextIndex >>> UInt64.ofNat i) &&& 1 = 1 ↔ xs.length / 2 ^ i % 2 = 1 := by
    rw [and_one_eq_one, high_index_toNat _ (by omega), h.next]
  exact (Vector.getElem_ofFn hi).trans (kept_or_zero h ⟨i, hi⟩ hbit)

theorem new_represents (hc : TableConsistent c) (h : Represents c t xs)
    (room : xs.length < 2 ^ 32) : new c t.nextIndex t.nextSiblings = some t := by
  rw [new]
  by_cases hzero : t.nextIndex = 0
  · have hnil : xs = [] := by
      rw [← List.length_eq_zero_iff, ← h.next, hzero]
      rfl
    rw [if_pos hzero]
    rw [hnil] at h
    exact congrArg some (Represents.unique (newEmpty_represents hc) h)
  · rw [if_neg hzero, Represents.next_root hc h room]
    rfl

/-- The path of the next leaf leads from the empty leaf to the root before an append, and from the
appended one to the root after it. -/
theorem next_roots (hc : TableConsistent c) (h : Represents c t xs) (room : xs.length < 2 ^ 32) :
    climb (hashTwoToOne c) (zeroHash 0) xs.length
        (path (hashTwoToOne c) (leaves (zeroHash 0) xs) xs.length TREE_HEIGHT) = t.currentRoot ∧
      climb (hashTwoToOne c) v xs.length
        (path (hashTwoToOne c) (leaves (zeroHash 0) xs) xs.length TREE_HEIGHT) =
          (t.append c v).currentRoot := by
  have htop : xs.length / 2 ^ TREE_HEIGHT = 0 := Nat.div_eq_of_lt room
  have hleaf : leaves (zeroHash 0) xs xs.length = zeroHash 0 := List.getD_eq_default _ _ le_rfl
  constructor
  · have hpath : climb (hashTwoToOne c) (leaves (zeroHash 0) xs xs.length) xs.length
        (path (hashTwoToOne c) (leaves (zeroHash 0) xs) xs.length TREE_HEIGHT) =
          node (hashTwoToOne c) (leaves (zeroHash 0) xs) TREE_HEIGHT
            (xs.length / 2 ^ TREE_HEIGHT) := climb_path _ _ _
    rw [hleaf, htop] at hpath
    exact hpath.trans h.root.symm
  · rw [(append_any c t v).1, h.reads hc, h.next]

/-- The proof for one append of `v` to a tree with these leaves. -/
structure ProvesAppend (c : Crypto) (t : FixedMerkleAppendTree) (xs : List QHash256) (v : QHash256)
    (proof : DeltaMerkleProofCore QHash256) : Prop where
  index : proof.index.toNat = xs.length
  oldValue : proof.oldValue = zeroHash 0
  newValue : proof.newValue = v
  siblings : proof.siblings =
    path (hashTwoToOne c) (leaves (zeroHash 0) xs) xs.length TREE_HEIGHT
  oldRoot : proof.oldRoot = t.currentRoot
  newRoot : proof.newRoot = (t.append c v).currentRoot

theorem appendDeltaMerkleProof_proves (hc : TableConsistent c) (h : Represents c t xs)
    (room : xs.length < 2 ^ 32) : ProvesAppend c t xs v (appendDeltaMerkleProof c t v).2 := by
  have hsiblings : (getPartialMerkleProofForCurrentIndex t).siblings =
      path (hashTwoToOne c) (leaves (zeroHash 0) xs) xs.length TREE_HEIGHT :=
    (getPartialMerkleProofForCurrentIndex_siblings h).trans (Represents.next_path hc h)
  obtain ⟨hold, hnew⟩ := next_roots (v := v) hc h room
  have hproof : (appendDeltaMerkleProof c t v).2 = .fromParams (hashTwoToOne c) t.nextIndex
      (zeroHash 0) v (getPartialMerkleProofForCurrentIndex t).siblings := rfl
  rw [hproof, hsiblings, DeltaMerkleProofCore.fromParams, computeRootMerkleProofGeneric_eq,
    computeRootMerkleProofGeneric_eq, h.next, hold, hnew]
  exact ⟨h.next, rfl, rfl, rfl, rfl, rfl⟩

/-- The proofs of an append to any tree with room, and the tree built again from what it keeps. -/
theorem append_proofs (c : Crypto)
    (table : ∀ i < TREE_HEIGHT, zeroHash (i + 1) = hashTwoToOne c (zeroHash i) (zeroHash i))
    (xs : List QHash256) (room : xs.length < 2 ^ 32) (v : QHash256) (t : FixedMerkleAppendTree)
    (ht : t = xs.foldl (FixedMerkleAppendTree.append c) .newEmpty) :
    (appendDeltaMerkleProof c t v).1 = t.append c v ∧
      ProvesAppend c t xs v (appendDeltaMerkleProof c t v).2 ∧
      (appendPartialDeltaMerkleProof c t v).1 = t.append c v ∧
      (appendPartialDeltaMerkleProof c t v).2.index = (appendDeltaMerkleProof c t v).2.index ∧
      (appendPartialDeltaMerkleProof c t v).2.oldValue =
        (appendDeltaMerkleProof c t v).2.oldValue ∧
      (appendPartialDeltaMerkleProof c t v).2.newValue =
        (appendDeltaMerkleProof c t v).2.newValue ∧
      (appendPartialDeltaMerkleProof c t v).2.siblings.toList =
        (appendDeltaMerkleProof c t v).2.siblings ∧
      (getPartialMerkleProofFixedForCurrentIndex t).index =
        (getPartialMerkleProofForCurrentIndex t).index ∧
      (getPartialMerkleProofFixedForCurrentIndex t).value =
        (getPartialMerkleProofForCurrentIndex t).value ∧
      (getPartialMerkleProofFixedForCurrentIndex t).siblings.toList =
        (getPartialMerkleProofForCurrentIndex t).siblings ∧
      new c t.nextIndex t.nextSiblings = some t := by
  have h : Represents c t xs := ht ▸ appended_represents table room.le
  have hagree : (getPartialMerkleProofFixedForCurrentIndex t).siblings.toList =
      (getPartialMerkleProofForCurrentIndex t).siblings := by
    rw [getPartialMerkleProofFixedForCurrentIndex_siblings h,
      getPartialMerkleProofForCurrentIndex_siblings h]
  exact ⟨rfl, appendDeltaMerkleProof_proves table h room, rfl, rfl, rfl, rfl, hagree, rfl, rfl,
    hagree, new_represents table h room⟩

/-- The append of a third leaf under SHA-256. -/
theorem third_append_proof :
    ProvesAppend shaOnly
        ([zeroHash 5, zeroHash 6].foldl (FixedMerkleAppendTree.append shaOnly) .newEmpty)
        [zeroHash 5, zeroHash 6] (zeroHash 7)
        (appendDeltaMerkleProof shaOnly ([zeroHash 5, zeroHash 6].foldl
          (FixedMerkleAppendTree.append shaOnly) .newEmpty) (zeroHash 7)).2 :=
  (append_proofs shaOnly shaOnly_table [zeroHash 5, zeroHash 6] (by decide) (zeroHash 7) _
    rfl).2.1

section LastLeaf

variable {n : ℕ}

theorem carry_iff (n i : ℕ) :
    2 ^ (i + 1) ∣ n + 1 ↔ n / 2 ^ i % 2 = 1 ∧ 2 ^ i ∣ n + 1 := by
  by_cases hlow : 2 ^ i ∣ n + 1
  · rw [pow_succ, ← Nat.dvd_div_iff_mul_dvd hlow, Nat.succ_div_of_dvd hlow, and_iff_left hlow]
    omega
  · refine iff_of_false (fun h => hlow ?_) fun h => hlow h.2
    exact (pow_dvd_pow 2 (Nat.le_succ i)).trans h

/-- What the tree offers for its last leaf. The left siblings that the append of this leaf completed
to a larger subtree are forgotten. -/
theorem offered_last (hc : TableConsistent c) (h : Represents c t xs) (hn : xs.length = n + 1)
    (i : Fin TREE_HEIGHT) :
    offered t n i = if 2 ^ (i.val + 1) ∣ n + 1 then zeroHash i
      else sibling (hashTwoToOne c) (leaves (zeroHash 0) xs) n i := by
  rw [offered]
  by_cases hodd : n / 2 ^ i.val % 2 = 1
  · have heven : ¬ n / 2 ^ i.val % 2 = 0 := by omega
    rw [if_pos hodd, h.siblings, MerkleTree.frontier, hn, sibling, if_neg heven]
    by_cases hlow : 2 ^ i.val ∣ n + 1
    · rw [if_pos ((carry_iff n i).mpr ⟨hodd, hlow⟩), if_neg]
      rw [testBit_iff, Nat.succ_div_of_dvd hlow]
      omega
    · have hsame : (n + 1) / 2 ^ i.val = n / 2 ^ i.val := Nat.succ_div_of_not_dvd hlow
      rw [if_neg fun hand => hlow ((carry_iff n i).mp hand).2, hsame,
        if_pos ((testBit_iff _ _).mpr (hsame ▸ hodd))]
  · have heven : n / 2 ^ i.val % 2 = 0 := by omega
    have hbeyond : node (hashTwoToOne c) (leaves (zeroHash 0) xs) i (n / 2 ^ i.val + 1) =
        zeroHash i := by
      refine node_beyond _ hc i.isLt.le ?_
      have hlt := lt_div_pow_succ n i.val
      omega
    rw [if_neg hodd, if_neg fun hand => hodd ((carry_iff n i).mp hand).1, sibling, if_pos heven,
      hbeyond]

/-- The subtrees that the last append completed, as far as they lie to the left of the leaf itself,
have the roots of empty trees. -/
def CompletedEmpty (c : Crypto) (xs : List QHash256) (n : ℕ) : Prop :=
  ∀ i < TREE_HEIGHT, 2 ^ (i + 1) ∣ n →
    sibling (hashTwoToOne c) (leaves (zeroHash 0) xs) (n - 1) i = zeroHash i

theorem offered_path_iff (hc : TableConsistent c) (h : Represents c t xs) (hn : xs.length = n + 1) :
    (List.finRange TREE_HEIGHT).map (offered t n) =
      path (hashTwoToOne c) (leaves (zeroHash 0) xs) n TREE_HEIGHT ↔
        CompletedEmpty c xs (n + 1) := by
  have hpath : path (hashTwoToOne c) (leaves (zeroHash 0) xs) n TREE_HEIGHT =
      (List.finRange TREE_HEIGHT).map
        fun i : Fin TREE_HEIGHT => sibling (hashTwoToOne c) (leaves (zeroHash 0) xs) n i := by
    rw [path, ← List.map_coe_finRange_eq_range, List.map_map]
    rfl
  rw [hpath, List.map_inj_left]
  constructor
  · intro hall i hi hcarry
    have hlevel := hall ⟨i, hi⟩ (List.mem_finRange _)
    rw [offered_last hc h hn, if_pos hcarry] at hlevel
    exact hlevel.symm
  · intro hempty i _
    rw [offered_last hc h hn]
    by_cases hcarry : 2 ^ (i.val + 1) ∣ n + 1
    · rw [if_pos hcarry]
      exact (hempty i i.isLt hcarry).symm
    · rw [if_neg hcarry]

theorem getMerkleProofForCurrentIndex_eq (h : Represents c t xs) (hn : xs.length = n + 1)
    (room : xs.length < 2 ^ 32) :
    (getMerkleProofForCurrentIndex c t).index.toNat = n ∧
      (getMerkleProofForCurrentIndex c t).siblings =
        (List.finRange TREE_HEIGHT).map (offered t n) := by
  have hnext : t.nextIndex.toNat = n + 1 := h.next.trans hn
  have hnonzero : t.nextIndex ≠ 0 := by
    rw [ne_zero_iff]
    omega
  have hone : (1 : UInt64).toNat = 1 := rfl
  have hindex : (t.nextIndex - 1).toNat = n := by
    rw [UInt64.toNat_sub_of_le _ _ (by rw [UInt64.le_iff_toNat_le, hone]; omega), hone]
    omega
  rw [getMerkleProofForCurrentIndex, if_neg hnonzero]
  refine ⟨hindex, ?_⟩
  rw [← hindex]
  exact pushed_siblings t _

/-- The proof for the last leaf of a tree with `n` leaves: the index is right, and the siblings are
the ones of that leaf, with which the leaf leads to the root, exactly if the subtrees to its left
that its own append completed are empty. With an odd number of leaves there are none. -/
theorem last_leaf_proof_iff (c : Crypto)
    (table : ∀ i < TREE_HEIGHT, zeroHash (i + 1) = hashTwoToOne c (zeroHash i) (zeroHash i))
    (n : ℕ) (hpos : 1 ≤ n) (hlt : n < 2 ^ 32) (xs : List QHash256) (hn : xs.length = n)
    (leaf : QHash256) (hleaf : xs[n - 1]? = some leaf) (t : FixedMerkleAppendTree)
    (ht : t = xs.foldl (FixedMerkleAppendTree.append c) .newEmpty) :
    ((getMerkleProofForCurrentIndex c t).index.toNat = n - 1 ∧
      (getMerkleProofForCurrentIndex c t).siblings =
        path (hashTwoToOne c) (leaves (zeroHash 0) xs) (n - 1) TREE_HEIGHT ∧
      BlockTransactions.MerkleProofCore.verify (hashTwoToOne c)
        { getMerkleProofForCurrentIndex c t with root := t.currentRoot, value := leaf } = true) ↔
      CompletedEmpty c xs n := by
  obtain ⟨m, rfl⟩ : ∃ m, n = m + 1 := ⟨n - 1, by omega⟩
  rw [Nat.add_sub_cancel] at hleaf ⊢
  have h : Represents c t xs := ht ▸ appended_represents table (by omega)
  obtain ⟨hindex, hsiblings⟩ := getMerkleProofForCurrentIndex_eq h hn (by omega)
  rw [hsiblings, ← offered_path_iff table h hn]
  constructor
  · exact fun hand => hand.2.1
  · intro hpath
    refine ⟨hindex, hpath, ?_⟩
    have hvalue : leaves (zeroHash 0) xs m = leaf := by
      rw [leaves, List.getD_eq_getElem?_getD, hleaf, Option.getD_some]
    have htop : m / 2 ^ TREE_HEIGHT = 0 := Nat.div_eq_of_lt (by change m < 2 ^ 32; omega)
    rw [MerkleProofs.MerkleProofCore.verify_iff]
    change climb _ leaf (getMerkleProofForCurrentIndex c t).index.toNat
      (getMerkleProofForCurrentIndex c t).siblings = t.currentRoot
    rw [hindex, hsiblings, hpath, ← hvalue, climb_path, htop, h.root, treeRoot]

/-- The third of three leaves under SHA-256. -/
theorem third_leaf_proof :
    (getMerkleProofForCurrentIndex shaOnly ([zeroHash 5, zeroHash 6, zeroHash 7].foldl
        (FixedMerkleAppendTree.append shaOnly) .newEmpty)).index.toNat = 2 ∧
      (getMerkleProofForCurrentIndex shaOnly ([zeroHash 5, zeroHash 6, zeroHash 7].foldl
        (FixedMerkleAppendTree.append shaOnly) .newEmpty)).siblings =
          path (hashTwoToOne shaOnly) (leaves (zeroHash 0) [zeroHash 5, zeroHash 6, zeroHash 7]) 2
            TREE_HEIGHT := by
  have hodd : CompletedEmpty shaOnly [zeroHash 5, zeroHash 6, zeroHash 7] 3 := by
    intro i _ hcarry
    have htwo : 2 ∣ 3 := (dvd_pow_self 2 (Nat.succ_ne_zero i)).trans hcarry
    omega
  obtain ⟨hindex, hsiblings, -⟩ := (last_leaf_proof_iff shaOnly shaOnly_table 3 (by decide)
    (by decide) [zeroHash 5, zeroHash 6, zeroHash 7] rfl (zeroHash 7) rfl _ rfl).mpr hodd
  exact ⟨hindex, hsiblings⟩

/-- The second of two leaves: the first leaf, which is its sibling, is not in the proof. -/
theorem second_leaf_proof_wrong :
    (getMerkleProofForCurrentIndex shaOnly ([zeroHash 5, zeroHash 6].foldl
        (FixedMerkleAppendTree.append shaOnly) .newEmpty)).siblings ≠
      path (hashTwoToOne shaOnly) (leaves (zeroHash 0) [zeroHash 5, zeroHash 6]) 1 TREE_HEIGHT := by
  have h : Represents shaOnly ([zeroHash 5, zeroHash 6].foldl (FixedMerkleAppendTree.append shaOnly)
      .newEmpty) [zeroHash 5, zeroHash 6] := appended_represents shaOnly_table (by decide)
  have hlen : [zeroHash 5, zeroHash 6].length = 1 + 1 := rfl
  rw [(getMerkleProofForCurrentIndex_eq h hlen (by decide)).2, ne_eq,
    offered_path_iff shaOnly_table h hlen]
  intro hempty
  have hfirst : zeroHash 5 = zeroHash 0 := hempty 0 (by decide) (by decide)
  revert hfirst
  decide +kernel

end LastLeaf

end AppendProofs
