import PsyDogeBridge.FailedReverts

/-! Reverting the append-only tree to an earlier number of leaves. -/
namespace RevertedTree

open CheckedSteps BridgeData AppendTree MerkleTree AppendHistory FailedReverts

variable {c : Crypto} {xs ys : List QHash256} {m n : ℕ}

theorem earlier_ok {target current : UInt64} (h : target.toNat < current.toNat) :
    ¬ (current = 0 ∨ target ≥ current) := by
  rintro (hzero | hle)
  · rw [hzero, UInt64.toNat_zero] at h
    omega
  · have := UInt64.le_iff_toNat_le.mp hle
    omega

section Scan

variable {target current : UInt64} {siblings : List QHash256} {f : ℕ → QHash256}

structure AtScan (m n : ℕ) (f : ℕ → QHash256) (i : ℕ) (s : ChangedScan) : Prop where
  temp : s.temp.toNat = m / 2 ^ i
  changedIndex : s.changedIndex.toNat = (m ^^^ n) / 2 ^ i
  changed : s.changed = selected (changedAt m n) f i

theorem AtScan.level {i : Fin TREE_HEIGHT} {s : ChangedScan}
    (hget : siblings[i.val]? = some (f i)) (h : AtScan m n f i s) :
    ∃ t, s.level siblings i = .ok t ∧ AtScan m n f (i + 1) t := by
  have hchanged : (s.temp &&& 1 ≠ 0 ∧ s.changedIndex ≠ 0) ↔ changedAt m n i := by
    rw [ne_eq, and_one_eq_zero, ne_zero_iff, h.temp, h.changedIndex,
      Nat.mod_two_not_eq_zero, changedAt]
  refine ⟨⟨selected (changedAt m n) f (i + 1), s.temp >>> 1, s.changedIndex >>> 1⟩, ?_, ?_, ?_, rfl⟩
  · rw [ChangedScan.level, hget, selected_succ, ← h.changed]
    by_cases hi : changedAt m n i
    · rw [if_pos (hchanged.mpr hi), if_pos hi]
      rfl
    · rw [if_neg (mt hchanged.mp hi), if_neg hi, List.append_nil]
      rfl
  · rw [shiftRight_one_toNat, h.temp, div_pow_succ]
  · rw [shiftRight_one_toNat, h.changedIndex, div_pow_succ]

theorem getChangedNextSiblingsForRevert_eq (hm : target.toNat = m) (hn : current.toNat = n)
    (hlt : m < n) (hget : ∀ i : Fin TREE_HEIGHT, siblings[i.val]? = some (f i)) :
    getChangedNextSiblingsForRevert current target siblings =
      .ok (selected (changedAt m n) f TREE_HEIGHT) := by
  have hstart : AtScan m n f 0 ⟨[], target, target ^^^ current⟩ := by
    refine ⟨?_, ?_, rfl⟩
    · rw [pow_zero, Nat.div_one, hm]
    · rw [pow_zero, Nat.div_one, UInt64.toNat_xor, hm, hn]
  obtain ⟨s, hs, hlast⟩ := loop_succeeds (P := AtScan m n f) hstart
    (f := ChangedScan.level siblings) fun i s h => h.level (hget i)
  simp only [getChangedNextSiblingsForRevert, bind_ok, ensure_ok, exists_const, pure_ok]
  exact ⟨earlier_ok (by omega), s, hs, hlast.changed⟩

end Scan

section Trees

variable {t u : FixedMerkleAppendTree}

theorem Represents.next_path (hc : TableConsistent c) (h : Represents c t xs) :
    t.nextSiblings.toList =
      path (hashTwoToOne c) (leaves (zeroHash 0) xs) xs.length TREE_HEIGHT := by
  refine List.ext_getElem ?_ fun i hi _ => ?_
  · rw [Vector.length_toList, path, List.length_map, List.length_range]
  · rw [Vector.length_toList] at hi
    have hsibling := h.siblings ⟨i, hi⟩
    rw [← sibling_next xs hc hi.le] at hsibling
    simp only [Vector.getElem_toList, path, List.getElem_map, List.getElem_range]
    exact hsibling

theorem Represents.next_root (hc : TableConsistent c) (h : Represents c t xs)
    (room : xs.length < 2 ^ 32) :
    computeMerkleRoot c zeroBytes t.nextIndex t.nextSiblings.toList = some t.currentRoot := by
  have hpath := Represents.next_path hc h
  have hzero : zeroHash 0 = zeroBytes := by decide +kernel
  have hleaf : leaves (zeroHash 0) xs xs.length = zeroBytes :=
    (List.getD_eq_default _ _ le_rfl).trans hzero
  have htop : xs.length / 2 ^ TREE_HEIGHT = 0 := Nat.div_eq_of_lt room
  refine computeMerkleRoot_some.mpr ⟨?_, ?_⟩
  · rw [Vector.length_toList, h.next]
    exact room
  · rw [hpath, h.next, ← hleaf, climb_path, htop, h.root, treeRoot]

theorem xor_div_eq_zero {i : ℕ} (h : (m ^^^ n) / 2 ^ i = 0) : n / 2 ^ i = m / 2 ^ i := by
  rw [← Nat.shiftRight_eq_div_pow, Nat.shiftRight_xor_distrib, Nat.xor_eq_zero_iff] at h
  rw [← Nat.shiftRight_eq_div_pow, ← Nat.shiftRight_eq_div_pow, h]

theorem Represents.unique (h : Represents c t xs) (h' : Represents c u xs) : t = u := by
  obtain ⟨nextIndex, currentRoot, nextSiblings⟩ := t
  obtain ⟨nextIndex', currentRoot', nextSiblings'⟩ := u
  have hnext : nextIndex = nextIndex' := UInt64.toNat_inj.mp (h.next.trans h'.next.symm)
  have hroot : currentRoot = currentRoot' := h.root.trans h'.root.symm
  have hsiblings : nextSiblings = nextSiblings' := by
    refine Vector.ext fun i hi => ?_
    exact (h.siblings ⟨i, hi⟩).trans (h'.siblings ⟨i, hi⟩).symm
  rw [hnext, hroot, hsiblings]

theorem Represents.revert {target : UInt64} (hc : TableConsistent c) (hu : Represents c u xs)
    (ht : Represents c t (xs ++ ys)) (htarget : target.toNat = xs.length) (hys : ys ≠ [])
    (room : xs.length < 2 ^ 32) :
    ∃ changed, getChangedNextSiblingsForRevert t.nextIndex target u.nextSiblings.toList =
        .ok changed ∧
      t.revertToNextIndex c target changed = .ok u := by
  -- The siblings that the shorter tree keeps, by level.
  let f (i : ℕ) := MerkleTree.frontier (hashTwoToOne c) zeroHash (leaves (zeroHash 0) xs)
    xs.length i
  have hlt : xs.length < (xs ++ ys).length := by
    have := List.length_pos_of_ne_nil hys
    rw [List.length_append]
    omega
  have hscan : getChangedNextSiblingsForRevert t.nextIndex target u.nextSiblings.toList =
      .ok (selected (changedAt xs.length (xs ++ ys).length) f TREE_HEIGHT) := by
    refine getChangedNextSiblingsForRevert_eq htarget ht.next hlt fun i => ?_
    rw [List.getElem?_eq_getElem (by rw [Vector.length_toList]; exact i.isLt),
      Vector.getElem_toList]
    exact congrArg some (hu.siblings i)
  refine ⟨_, hscan, ?_⟩
  rw [FixedMerkleAppendTree.revertToNextIndex, bind_ok]
  refine ⟨(), ensure_ok.mpr (earlier_ok ?_), ?_⟩
  · rw [htarget, ht.next]
    exact hlt
  by_cases hempty : target = 0
  · rw [hempty, UInt64.toNat_zero] at htarget
    rw [List.length_eq_zero_iff.mp htarget.symm] at hu
    rw [if_pos hempty]
    exact congrArg Except.ok (Represents.unique (newEmpty_represents hc) hu)
  · have hlen := selected_length (P := changedAt xs.length (xs ++ ys).length) f TREE_HEIGHT
    rw [← htarget, ← ht.next] at hlen ⊢
    obtain ⟨s, hs, hlast⟩ | ⟨i, s, e, -, -, hchanged, hcount, -⟩ := next_loop t target
      (selected (changedAt target.toNat t.nextIndex.toNat) f TREE_HEIGHT)
    swap
    · exact absurd (count_lt_of_stop hchanged hcount i.isLt) (by omega)
    have hsiblings (i : Fin TREE_HEIGHT) : s.siblings.get i = f i := by
      rw [hlast.below i i.isLt]
      by_cases hzero : (target.toNat ^^^ t.nextIndex.toNat) / 2 ^ i.val = 0
      · -- The two numbers agree from here on, and so do the siblings.
        rw [if_pos hzero, ht.siblings]
        rw [htarget, ht.next] at hzero
        exact frontier_unmoved (xor_div_eq_zero hzero)
      · rw [if_neg hzero, nextWritten]
        by_cases hright : target.toNat / 2 ^ i.val % 2 = 1
        · rw [if_pos hright, ← selected_length f, List.getD_eq_getElem?_getD,
            selected_get ⟨hright, hzero⟩ _ i.isLt, Option.getD_some]
        · rw [if_neg hright]
          rw [htarget, ← testBit_iff] at hright
          exact (if_neg hright).symm
    have hkept : s.siblings = u.nextSiblings := by
      refine Vector.ext fun i hi => ?_
      exact (hsiblings ⟨i, hi⟩).trans (hu.siblings ⟨i, hi⟩).symm
    have hindex : target = u.nextIndex := UInt64.toNat_inj.mp (htarget.trans hu.next.symm)
    rw [if_neg hempty, bind_ok]
    refine ⟨s, inPlace_ok.mp hs, ?_⟩
    rw [hkept, hindex, Represents.next_root hc hu room]
    rfl

/-- From any list of leaves back to any shorter one. -/
theorem reverted_tree (c : Crypto)
    (table : ∀ i < TREE_HEIGHT, zeroHash (i + 1) = hashTwoToOne c (zeroHash i) (zeroHash i))
    (xs : List QHash256) (hlen : xs.length ≤ 2 ^ 32 - 1) (m : ℕ) (hm : m < xs.length) :
    ∃ changed,
      getChangedNextSiblingsForRevert (.ofNat xs.length) (.ofNat m)
          ((xs.take m).foldl (FixedMerkleAppendTree.append c) .newEmpty).nextSiblings.toList =
        .ok changed ∧
      (xs.foldl (FixedMerkleAppendTree.append c) .newEmpty).revertToNextIndex c (.ofNat m) changed =
        .ok ((xs.take m).foldl (FixedMerkleAppendTree.append c) .newEmpty) := by
  have hfirst : (xs.take m).length = m := List.length_take_of_le hm.le
  have hrest : xs.drop m ≠ [] := by
    rw [ne_eq, List.drop_eq_nil_iff]
    omega
  have hu := appended_represents (c := c) table (by omega : (xs.take m).length ≤ 2 ^ 32)
  have ht := appended_represents (c := c) table (by omega : xs.length ≤ 2 ^ 32)
  have htarget : (UInt64.ofNat m).toNat = (xs.take m).length := by
    rw [UInt64.toNat_ofNat', hfirst]
    omega
  have hnext : (xs.foldl (FixedMerkleAppendTree.append c) .newEmpty).nextIndex =
      .ofNat xs.length := by
    rw [← UInt64.toNat_inj, ht.next, UInt64.toNat_ofNat']
    omega
  have hsplit : Represents c (xs.foldl (FixedMerkleAppendTree.append c) .newEmpty)
      (xs.take m ++ xs.drop m) := by
    rw [List.take_append_drop]
    exact ht
  rw [← hnext]
  exact Represents.revert table hu hsplit htarget hrest (by omega)

/-- From five leaves back to three, under SHA-256. -/
theorem reverted_five :
    ∃ changed,
      getChangedNextSiblingsForRevert 5 3
          (([1, 2, 3].map zeroHash).foldl (FixedMerkleAppendTree.append shaOnly)
            .newEmpty).nextSiblings.toList = .ok changed ∧
      (([1, 2, 3, 4, 5].map zeroHash).foldl (FixedMerkleAppendTree.append shaOnly)
          .newEmpty).revertToNextIndex shaOnly 3 changed =
        .ok (([1, 2, 3].map zeroHash).foldl (FixedMerkleAppendTree.append shaOnly) .newEmpty) :=
  reverted_tree shaOnly shaOnly_table ([1, 2, 3, 4, 5].map zeroHash) (by decide) 3 (by decide)

end Trees

end RevertedTree
