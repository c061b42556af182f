import PsyDogeBridge.RevertedTree

/-! Reverting the append-only tree along the path of its last remaining leaf. -/
namespace PathRevert

open CheckedSteps BridgeData AppendTree MerkleTree AppendHistory RevertedTree FailedReverts

variable {c : Crypto} {t u : FixedMerkleAppendTree} {v : QHash256}

/-- Two trees that an append cannot tell apart: they keep the same siblings at the levels that the
next index takes to the right. -/
structure Agree (t u : FixedMerkleAppendTree) : Prop where
  next : t.nextIndex = u.nextIndex
  kept : ∀ i : Fin TREE_HEIGHT, t.nextIndex.toNat / 2 ^ i.val % 2 = 1 →
    t.nextSiblings.get i = u.nextSiblings.get i

theorem Agree.reads (h : Agree t u) : reads t = reads u := by
  refine List.map_congr_left fun i _ => ?_
  rw [readAt, readAt, ← h.next]
  by_cases heven : t.nextIndex.toNat / 2 ^ i.val % 2 = 0
  · rw [if_pos heven, if_pos heven]
  · rw [if_neg heven, if_neg heven, h.kept i (by omega)]

theorem unchanged_bit {n m i : ℕ} (h : ¬ (n ^^^ m) / 2 ^ i % 2 = 1) :
    n / 2 ^ i % 2 = m / 2 ^ i % 2 := by
  rw [← testBit_iff, Nat.testBit_xor] at h
  have hsame : n.testBit i = m.testBit i := by
    cases hn : n.testBit i with
    | false => cases hm : m.testBit i with
      | false => rfl
      | true => rw [hn, hm] at h; exact absurd rfl h
    | true => cases hm : m.testBit i with
      | false => rw [hn, hm] at h; exact absurd rfl h
      | true => rfl
  have hiff : n / 2 ^ i % 2 = 1 ↔ m / 2 ^ i % 2 = 1 := by
    rw [← testBit_iff, ← testBit_iff, hsame]
  omega

theorem Agree.append (h : Agree t u) : Agree (t.append c v) (u.append c v) := by
  refine ⟨congrArg (· + 1) h.next, ?_⟩
  intro i hset
  have hrisen : risen c t v i = risen c u v i := by
    rw [risen, risen, h.reads, h.next]
  rw [(append_any c t v).2, (append_any c u v).2, keptAfter, keptAfter, ← h.next, hrisen]
  by_cases hchanged : (t.nextIndex ^^^ (t.nextIndex + 1)).toNat / 2 ^ i.val % 2 = 1
  · rw [if_pos hchanged, if_pos hchanged]
  · rw [if_neg hchanged, if_neg hchanged]
    refine h.kept i ?_
    rw [UInt64.toNat_xor] at hchanged
    rw [unchanged_bit hchanged]
    exact hset

theorem Agree.roots (h : Agree t u) (hroot : t.currentRoot = u.currentRoot) (ys : List QHash256) :
    (ys.foldl (FixedMerkleAppendTree.append c) t).currentRoot =
      (ys.foldl (FixedMerkleAppendTree.append c) u).currentRoot := by
  induction ys generalizing t u with
  | nil => exact hroot
  | cons y ys ih =>
    refine ih h.append ?_
    rw [(append_any c t y).1, (append_any c u y).1, h.reads, h.next]

section Path

variable {xs : List QHash256} {m : ℕ}

def leftSiblings (c : Crypto) (xs : List QHash256) (p : ℕ) : List QHash256 :=
  selected (fun i => p / 2 ^ i % 2 = 1)
    (sibling (hashTwoToOne c) (leaves (zeroHash 0) xs) p) TREE_HEIGHT

def firstNode (c : Crypto) (xs : List QHash256) (m i j : ℕ) : QHash256 :=
  node (hashTwoToOne c) (leaves (zeroHash 0) (xs.take m)) i j

/-- A left sibling on the path of the last leaf is complete without the leaves after it. -/
theorem left_sibling {p i : ℕ} (hodd : p / 2 ^ i % 2 = 1) (hp : p < xs.length) :
    sibling (hashTwoToOne c) (leaves (zeroHash 0) xs) p i =
      firstNode c xs (p + 1) i (p / 2 ^ i - 1) := by
  have heven : ¬ p / 2 ^ i % 2 = 0 := by omega
  have hlen : (xs.take (p + 1)).length = p + 1 := List.length_take_of_le hp
  have hle := mul_div_pow_le p i
  have hbefore : (p / 2 ^ i - 1 + 1) * 2 ^ i ≤ (xs.take (p + 1)).length := by
    rw [Nat.sub_add_cancel (one_le_div_of_testBit ((testBit_iff p i).mpr hodd)), hlen]
    omega
  rw [sibling, if_neg heven, firstNode, ← node_append hbefore (xs.drop (p + 1)),
    List.take_append_drop]

theorem right_empty {p i : ℕ} (hc : TableConsistent c) (hi : i ≤ TREE_HEIGHT) :
    firstNode c xs (p + 1) i (p / 2 ^ i + 1) = zeroHash i := by
  refine node_beyond _ hc hi ?_
  have hlt := lt_div_pow_succ p i
  rw [List.length_take]
  omega

/-- Along the path of the last leaf, the left siblings lead to the nodes of the shorter tree. -/
theorem pathNode_leftSiblings {p i : ℕ} (hc : TableConsistent c) (hp : p < xs.length)
    (hi : i ≤ TREE_HEIGHT) :
    pathNode c p (leaves (zeroHash 0) xs p) (leftSiblings c xs p) i =
      firstNode c xs (p + 1) i (p / 2 ^ i) := by
  induction i with
  | zero =>
    rw [pow_zero, Nat.div_one, firstNode, node, leaves, leaves, List.getD_eq_getElem?_getD,
      List.getD_eq_getElem?_getD, List.getElem?_take_of_lt (Nat.lt_succ_self p)]
    rfl
  | succ i ih =>
    have hparent : firstNode c xs (p + 1) (i + 1) (p / 2 ^ (i + 1)) =
        if p / 2 ^ i % 2 = 0 then
          hashTwoToOne c (firstNode c xs (p + 1) i (p / 2 ^ i))
            (firstNode c xs (p + 1) i (p / 2 ^ i + 1))
        else hashTwoToOne c (firstNode c xs (p + 1) i (p / 2 ^ i - 1))
          (firstNode c xs (p + 1) i (p / 2 ^ i)) := node_parent _ _ _
    rw [pathNode_succ, ih (by omega), hparent, lift, pathTaken]
    by_cases hright : rightAt p i
    · have hodd : p / 2 ^ i % 2 = 1 := hright
      have heven : ¬ p / 2 ^ i % 2 = 0 := by omega
      have hget : (leftSiblings c xs p)[Nat.count (rightAt p) i]? =
          some (sibling (hashTwoToOne c) (leaves (zeroHash 0) xs) p i) := by
        rw [← selected_length (P := rightAt p)
          (sibling (hashTwoToOne c) (leaves (zeroHash 0) xs) p) i]
        exact selected_get (P := rightAt p) hodd _ hi
      rw [if_neg heven, if_neg heven, if_pos hright, List.getD_eq_getElem?_getD, hget,
        Option.getD_some, left_sibling hodd hp]
    · have heven : p / 2 ^ i % 2 = 0 := Nat.mod_two_ne_one.mp hright
      rw [if_pos heven, if_pos heven, if_neg hright, right_empty hc (by omega)]

structure RevertedTo (c : Crypto) (xs : List QHash256) (p : ℕ) (t : FixedMerkleAppendTree) :
    Prop where
  next : t.nextIndex.toNat = p + 1
  root : t.currentRoot = treeRoot c (xs.take (p + 1))
  kept : ∀ i : Fin TREE_HEIGHT, t.nextSiblings.get i =
    if p / 2 ^ i.val % 2 = 1 then zeroHash i else firstNode c xs (p + 1) i (p / 2 ^ i.val)

/-- The revert never fails, whatever the tree kept before. -/
theorem revertToIndex_ok {p : ℕ} {index : UInt64} (hc : TableConsistent c) (hp : p < xs.length)
    (hindex : index.toNat = p + 1) (hroom : p < 2 ^ 32) (hlt : p + 1 < t.nextIndex.toNat)
    (hv : v = leaves (zeroHash 0) xs p) :
    ∃ t', t.revertToIndex c index (leftSiblings c xs p) v = .ok t' ∧ RevertedTo c xs p t' := by
  have hnonzero : index ≠ 0 := by
    rw [ne_zero_iff, hindex]
    omega
  have hprev : index.toNat - 1 = p := by omega
  have hlen : (leftSiblings c xs p).length = Nat.count (rightAt p) TREE_HEIGHT :=
    selected_length _ _
  have hloop := index_loop hnonzero c t v (leftSiblings c xs p)
  rw [hprev, hv] at hloop
  rcases hloop with ⟨s, hs, hlast⟩ | ⟨i, s, e, -, -, hright, hcount, -⟩
  · have htop : p / 2 ^ TREE_HEIGHT = 0 := Nat.div_eq_of_lt hroom
    refine ⟨⟨index, s.currentHash, s.siblings⟩, ?_, hindex, ?_, fun i => ?_⟩
    · rw [FixedMerkleAppendTree.revertToIndex, hv]
      simp only [bind_ok, ensure_ok, exists_const, if_neg hnonzero, pure_ok]
      exact ⟨earlier_ok (by omega), s, inPlace_ok.mp hs, hlast.used.trans hlen.symm, rfl⟩
    · have hroot := hlast.current
      rw [pathNode_leftSiblings hc hp le_rfl, htop] at hroot
      exact hroot
    · rw [hlast.below i i.isLt, pathWritten, pathNode_leftSiblings hc hp i.isLt.le]
      rfl
  · exact absurd (count_lt_of_stop hright hcount i.isLt) (by omega)

end Path

section Indistinguishable

variable {xs : List QHash256} {p m : ℕ}

/-- What the reverted tree keeps for its next leaf: of the complete subtrees to the left only the
smallest one, and the empty tree for the others. -/
def lowestKept (c : Crypto) (xs : List QHash256) (m i : ℕ) : QHash256 :=
  if m.testBit i = true ∧ 2 ^ i ∣ m then firstNode c xs m i (m / 2 ^ i - 1) else zeroHash i

/-- The complete subtrees to the left, other than the smallest, have the roots of empty trees. -/
def OthersEmpty (c : Crypto) (xs : List QHash256) (m : ℕ) : Prop :=
  ∀ i < TREE_HEIGHT, m.testBit i = true → ¬ 2 ^ i ∣ m →
    firstNode c xs m i (m / 2 ^ i - 1) = zeroHash i

theorem RevertedTo.kept_lowest (h : RevertedTo c xs p t) {i : Fin TREE_HEIGHT}
    (hset : (p + 1).testBit i = true) : t.nextSiblings.get i = lowestKept c xs (p + 1) i := by
  have hdiv : (p + 1) / 2 ^ i.val = p / 2 ^ i.val + if 2 ^ i.val ∣ p + 1 then 1 else 0 :=
    Nat.succ_div
  have hodd := (testBit_iff _ _).mp hset
  rw [h.kept, lowestKept]
  by_cases hlow : 2 ^ i.val ∣ p + 1
  · -- The lowest set bit is the one that the last leaf completed.
    rw [if_pos hlow] at hdiv
    have hbefore : ¬ p / 2 ^ i.val % 2 = 1 := by omega
    rw [if_neg hbefore, if_pos ⟨hset, hlow⟩, hdiv, Nat.add_sub_cancel]
  · rw [if_neg hlow] at hdiv
    have hbefore : p / 2 ^ i.val % 2 = 1 := by omega
    rw [if_pos hbefore, if_neg fun hand => hlow hand.2]

theorem RevertedTo.reads (h : RevertedTo c xs p t) :
    reads t = (List.range TREE_HEIGHT).map (lowestKept c xs (p + 1)) := by
  refine List.ext_getElem? fun i => ?_
  by_cases hi : i < TREE_HEIGHT
  · rw [reads_get ⟨i, hi⟩, List.getElem?_map, List.getElem?_range hi, Option.map_some, readAt,
      h.next]
    by_cases hset : (p + 1).testBit i = true
    · have hodd := (testBit_iff _ _).mp hset
      have heven : ¬ (p + 1) / 2 ^ i % 2 = 0 := by omega
      rw [if_neg heven, h.kept_lowest hset]
    · have heven : (p + 1) / 2 ^ i % 2 = 0 := by
        have hbit := mt (testBit_iff (p + 1) i).mpr hset
        omega
      rw [if_pos heven, lowestKept, if_neg fun hand => hset hand.1]
  · rw [List.getElem?_eq_none (by rw [reads_length]; omega), List.getElem?_eq_none]
    rw [List.length_map, List.length_range]
    omega

theorem RevertedTo.agree (h : RevertedTo c xs p t) (hu : Represents c u (xs.take (p + 1)))
    (hp : p < xs.length) (hempty : OthersEmpty c xs (p + 1)) : Agree t u := by
  have hlen : (xs.take (p + 1)).length = p + 1 := List.length_take_of_le hp
  refine ⟨UInt64.toNat_inj.mp ?_, ?_⟩
  · rw [h.next, hu.next, hlen]
  · intro i hodd
    rw [h.next] at hodd
    have hset : (p + 1).testBit i = true := (testBit_iff _ _).mpr hodd
    rw [h.kept_lowest hset, hu.siblings, MerkleTree.frontier, hlen, if_pos hset, lowestKept]
    by_cases hlow : 2 ^ i.val ∣ p + 1
    · rw [if_pos ⟨hset, hlow⟩]
      rfl
    · rw [if_neg fun hand => hlow hand.2]
      exact (hempty i i.isLt hset hlow).symm

theorem paths_eq_iff (hc : TableConsistent c) (hm : m ≤ xs.length) :
    (List.range TREE_HEIGHT).map (lowestKept c xs m) =
      path (hashTwoToOne c) (leaves (zeroHash 0) (xs.take m)) m TREE_HEIGHT ↔
        OthersEmpty c xs m := by
  have hlen : (xs.take m).length = m := List.length_take_of_le hm
  have hnext {i : ℕ} (hi : i < TREE_HEIGHT) :
      sibling (hashTwoToOne c) (leaves (zeroHash 0) (xs.take m)) m i =
        if m.testBit i then firstNode c xs m i (m / 2 ^ i - 1) else zeroHash i := by
    have h := sibling_next (xs.take m) hc hi.le
    rwa [hlen] at h
  constructor
  · intro h i hi hset hlow
    have hget := List.map_inj_left.mp h i (List.mem_range.mpr hi)
    rw [lowestKept, if_neg fun hand => hlow hand.2, hnext hi, if_pos hset] at hget
    exact hget.symm
  · intro h
    refine List.map_congr_left fun i hi => ?_
    rw [hnext (List.mem_range.mp hi), lowestKept]
    by_cases hset : m.testBit i = true
    · rw [if_pos hset]
      by_cases hlow : 2 ^ i ∣ m
      · rw [if_pos ⟨hset, hlow⟩]
      · rw [if_neg fun hand => hlow hand.2, h i (List.mem_range.mp hi) hset hlow]
    · rw [if_neg hset, if_neg fun hand => hset hand.1]

theorem othersEmpty_pow (k : ℕ) : OthersEmpty c xs (2 ^ k) := by
  intro i _ hset hlow
  rw [Nat.testBit_two_pow, decide_eq_true_eq] at hset
  rw [hset] at hlow
  exact absurd dvd_rfl hlow

theorem foldl_nextIndex (xs : List QHash256) (t : FixedMerkleAppendTree) :
    (xs.foldl (FixedMerkleAppendTree.append c) t).nextIndex =
      t.nextIndex + UInt64.ofNat xs.length := by
  induction xs generalizing t with
  | nil => exact (UInt64.add_zero _).symm
  | cons x xs ih =>
    rw [List.foldl_cons, ih, FixedMerkleAppendTree.append_nextIndex, List.length_cons,
      UInt64.ofNat_add, UInt64.add_assoc, UInt64.add_comm 1]
    rfl

/-- A revert along the path of leaf `m - 1` always gives the earlier root and index. The reverted
tree cannot be told from the earlier one by any appends exactly if, of the complete subtrees to the
left of the next leaf, all but the smallest have the roots of empty trees. One leaf whose two paths
do not collide is enough to see the difference. -/
theorem revert_indistinguishable_iff (c : Crypto)
    (table : ∀ i < TREE_HEIGHT, zeroHash (i + 1) = hashTwoToOne c (zeroHash i) (zeroHash i))
    (xs : List QHash256) (hn : xs.length < 2 ^ 64) (m : ℕ) (hpos : 0 < m) (hm : m < xs.length)
    (hroom : m ≤ 2 ^ 32) (v : QHash256) (hv : xs[m - 1]? = some v) (z : QHash256)
    (hsteps : List.Forall₂
      (fun q r : QHash256 × QHash256 => hashTwoToOne c q.1 q.2 = hashTwoToOne c r.1 r.2 → q = r)
      (climbSteps (hashTwoToOne c) z m ((List.range TREE_HEIGHT).map (lowestKept c xs m)))
      (climbSteps (hashTwoToOne c) z m
        (path (hashTwoToOne c) (leaves (zeroHash 0) (xs.take m)) m TREE_HEIGHT)))
    (earlier : FixedMerkleAppendTree)
    (hearlier : earlier = (xs.take m).foldl (FixedMerkleAppendTree.append c) .newEmpty) :
    (∃ t, (xs.foldl (FixedMerkleAppendTree.append c) .newEmpty).revertToIndex c (.ofNat m)
          (leftSiblings c xs (m - 1)) v = .ok t ∧
        t.currentRoot = earlier.currentRoot ∧ t.nextIndex = earlier.nextIndex) ∧
      ((∃ t, (xs.foldl (FixedMerkleAppendTree.append c) .newEmpty).revertToIndex c (.ofNat m)
            (leftSiblings c xs (m - 1)) v = .ok t ∧
          t.currentRoot = earlier.currentRoot ∧ t.nextIndex = earlier.nextIndex ∧
          ∀ ys : List QHash256,
            (ys.foldl (FixedMerkleAppendTree.append c) t).currentRoot =
              (ys.foldl (FixedMerkleAppendTree.append c) earlier).currentRoot) ↔
        OthersEmpty c xs m) := by
  obtain ⟨p, rfl⟩ : ∃ p, m = p + 1 := ⟨m - 1, by omega⟩
  rw [Nat.add_sub_cancel] at hv ⊢
  have hp : p < xs.length := by omega
  have hlen : (xs.take (p + 1)).length = p + 1 := List.length_take_of_le hm.le
  have hu : Represents c earlier (xs.take (p + 1)) :=
    hearlier ▸ appended_represents table (by rw [hlen]; exact hroom)
  have hindex : (UInt64.ofNat (p + 1)).toNat = p + 1 := by
    rw [UInt64.toNat_ofNat']
    omega
  have hcount : (xs.foldl (FixedMerkleAppendTree.append c) .newEmpty).nextIndex.toNat =
      xs.length := by
    rw [foldl_nextIndex, FixedMerkleAppendTree.newEmpty, UInt64.zero_add, UInt64.toNat_ofNat']
    omega
  have hleaf : v = leaves (zeroHash 0) xs p := by
    rw [leaves, List.getD_eq_getElem?_getD, hv, Option.getD_some]
  obtain ⟨t, hrevert, ht⟩ := revertToIndex_ok table hp hindex (by omega)
    (t := xs.foldl (FixedMerkleAppendTree.append c) .newEmpty) (by omega) hleaf
  have hroot : t.currentRoot = earlier.currentRoot := ht.root.trans hu.root.symm
  have hnext : t.nextIndex = earlier.nextIndex := by
    rw [← UInt64.toNat_inj, ht.next, hu.next, hlen]
  refine ⟨⟨t, hrevert, hroot, hnext⟩, ?_, ?_⟩
  · rintro ⟨t', hrevert', -, -, hall⟩
    obtain rfl : t = t' := Except.ok.inj (hrevert.symm.trans hrevert')
    -- One further append already shows what the two trees read.
    have hone : (t.append c z).currentRoot = (earlier.append c z).currentRoot := hall [z]
    rw [(append_any c t z).1, (append_any c earlier z).1, ht.reads, hu.reads table, hu.next,
      ht.next, hlen] at hone
    exact (paths_eq_iff table hm.le).mp (climb_injective hsteps hone).2
  · intro hempty
    exact ⟨t, hrevert, hroot, hnext, (ht.agree hu hp hempty).roots hroot⟩

/-- From three leaves back to two, under SHA-256. -/
theorem reverted_to_two :
    ∃ t, ([zeroHash 5, zeroHash 6, zeroHash 7].foldl (FixedMerkleAppendTree.append shaOnly)
          .newEmpty).revertToIndex shaOnly 2
            (leftSiblings shaOnly [zeroHash 5, zeroHash 6, zeroHash 7] 1) (zeroHash 6) = .ok t ∧
      ∀ ys : List QHash256,
        (ys.foldl (FixedMerkleAppendTree.append shaOnly) t).currentRoot =
          (ys.foldl (FixedMerkleAppendTree.append shaOnly)
            ([zeroHash 5, zeroHash 6].foldl (FixedMerkleAppendTree.append shaOnly)
              .newEmpty)).currentRoot := by
  have hempty : OthersEmpty shaOnly [zeroHash 5, zeroHash 6, zeroHash 7] 2 := othersEmpty_pow 1
  have hpaths : (List.range TREE_HEIGHT).map
      (lowestKept shaOnly [zeroHash 5, zeroHash 6, zeroHash 7] 2) =
        path (hashTwoToOne shaOnly) (leaves (zeroHash 0) [zeroHash 5, zeroHash 6]) 2 TREE_HEIGHT :=
    (paths_eq_iff shaOnly_table (by decide)).mpr hempty
  have hiff := (revert_indistinguishable_iff shaOnly shaOnly_table
    [zeroHash 5, zeroHash 6, zeroHash 7] (by decide) 2 (by decide) (by decide) (by decide)
    (zeroHash 6) rfl (zeroHash 0) (hpaths ▸ List.forall₂_same.mpr fun _ _ _ => rfl)
    _ rfl).2
  obtain ⟨t, hrevert, -, -, hall⟩ := hiff.mpr hempty
  exact ⟨t, hrevert, hall⟩

def fourLeaves : List QHash256 := [zeroHash 5, zeroHash 6, zeroHash 0, zeroHash 0]

theorem fourLeaves_leaves :
    leaves (zeroHash 0) fourLeaves = leaves (zeroHash 0) [zeroHash 5, zeroHash 6] := by
  funext k
  match k with
  | 0 | 1 | 2 | 3 => rfl
  | _ + 4 => rfl

theorem fourLeaves_root :
    treeRoot shaOnly fourLeaves = climb (hashTwoToOne shaOnly) (zeroHash 5) 0
      ((List.range TREE_HEIGHT).map fun i => if i = 0 then zeroHash 6 else zeroHash i) := by
  have hpath : climb (hashTwoToOne shaOnly) (leaves (zeroHash 0) [zeroHash 5, zeroHash 6] 0) 0
      (path (hashTwoToOne shaOnly) (leaves (zeroHash 0) [zeroHash 5, zeroHash 6]) 0 TREE_HEIGHT) =
        node (hashTwoToOne shaOnly) (leaves (zeroHash 0) [zeroHash 5, zeroHash 6]) TREE_HEIGHT
          (0 / 2 ^ TREE_HEIGHT) := climb_path _ _ _
  rw [Nat.zero_div] at hpath
  have hfirst : leaves (zeroHash 0) [zeroHash 5, zeroHash 6] 0 = zeroHash 5 := rfl
  rw [treeRoot, fourLeaves_leaves, ← hpath, hfirst, path]
  refine congrArg (climb (hashTwoToOne shaOnly) (zeroHash 5) 0)
    (List.map_congr_left fun i hi => ?_)
  rw [sibling, Nat.zero_div, if_pos (Nat.zero_mod 2)]
  by_cases hzero : i = 0
  · rw [if_pos hzero, hzero]
    rfl
  · rw [if_neg hzero]
    refine node_beyond _ shaOnly_table (List.mem_range.mp hi).le ?_
    have hpow : 2 ^ 1 ≤ 2 ^ i := Nat.pow_le_pow_right (by decide) (by omega)
    change 2 ≤ (0 + 1) * 2 ^ i
    omega

theorem fourLeaves_ne_empty : treeRoot shaOnly fourLeaves ≠ zeroHash TREE_HEIGHT := by
  rw [fourLeaves_root]
  decide +kernel

/-- After the revert to three leaves the tree has forgotten the two that are not empty. -/
theorem fourLeaves_kept (i : ℕ) : lowestKept shaOnly fourLeaves 3 i = zeroHash i := by
  rw [lowestKept]
  by_cases hlow : Nat.testBit 3 i = true ∧ 2 ^ i ∣ 3
  · have hzero : i = 0 := by
      by_contra hne
      have htwo : 2 ∣ 3 := (dvd_pow_self 2 hne).trans hlow.2
      omega
    rw [if_pos hlow, hzero]
    rfl
  · rw [if_neg hlow]

/-- The revert of these leaves to three succeeds, but the tree then appends another empty leaf as if
all leaves were empty. -/
theorem fourLeaves_forgotten :
    leftSiblings shaOnly fourLeaves 2 = [hashTwoToOne shaOnly (zeroHash 5) (zeroHash 6)] ∧
      ∃ t, (fourLeaves.foldl (FixedMerkleAppendTree.append shaOnly) .newEmpty).revertToIndex shaOnly
          3 (leftSiblings shaOnly fourLeaves 2) (zeroHash 0) = .ok t ∧
        ([zeroHash 0].foldl (FixedMerkleAppendTree.append shaOnly) t).currentRoot ≠
          ([zeroHash 0].foldl (FixedMerkleAppendTree.append shaOnly)
            ((fourLeaves.take 3).foldl (FixedMerkleAppendTree.append shaOnly)
              .newEmpty)).currentRoot := by
  have hfour : Represents shaOnly
      (fourLeaves.foldl (FixedMerkleAppendTree.append shaOnly) .newEmpty) fourLeaves :=
    appended_represents shaOnly_table (by decide)
  have hthree : Represents shaOnly
      ((fourLeaves.take 3).foldl (FixedMerkleAppendTree.append shaOnly) .newEmpty)
      (fourLeaves.take 3) := appended_represents shaOnly_table (by decide)
  have hearlier : Represents shaOnly
      (((fourLeaves.take 3).foldl (FixedMerkleAppendTree.append shaOnly) .newEmpty).append shaOnly
        (zeroHash 0)) fourLeaves := hthree.append shaOnly_table (by decide)
  obtain ⟨t, hrevert, ht⟩ : ∃ t, (fourLeaves.foldl (FixedMerkleAppendTree.append shaOnly)
      .newEmpty).revertToIndex shaOnly 3 (leftSiblings shaOnly fourLeaves 2) (zeroHash 0) = .ok t ∧
        RevertedTo shaOnly fourLeaves 2 t :=
    revertToIndex_ok shaOnly_table (by decide) rfl (by decide) (by rw [hfour.next]; decide) rfl
  have hreads : reads t = (List.range TREE_HEIGHT).map zeroHash := by
    rw [ht.reads]
    exact List.map_congr_left fun i _ => fourLeaves_kept i
  refine ⟨rfl, t, hrevert, ?_⟩
  change (t.append shaOnly (zeroHash 0)).currentRoot ≠
    (((fourLeaves.take 3).foldl (FixedMerkleAppendTree.append shaOnly) .newEmpty).append shaOnly
      (zeroHash 0)).currentRoot
  rw [(append_any shaOnly t _).1, hreads, climb_empty shaOnly_table le_rfl, hearlier.root]
  exact fourLeaves_ne_empty.symm

end Indistinguishable

end PathRevert
