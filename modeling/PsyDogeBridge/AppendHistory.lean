import PsyDogeBridge.AppendTree
import PsyDogeBridge.MerkleTree
import PsyDogeBridge.Sha256

/-! The append-only tree after any number of appends, and what a proof against its root shows. -/
namespace AppendHistory

open CheckedSteps BridgeData AppendTree MerkleTree

variable {c : Crypto} {xs : List QHash256} {v : QHash256}

def TableConsistent (c : Crypto) : Prop := Consistent (hashTwoToOne c) zeroHash TREE_HEIGHT

def treeRoot (c : Crypto) (xs : List QHash256) : QHash256 :=
  node (hashTwoToOne c) (leaves (zeroHash 0) xs) TREE_HEIGHT 0

structure Represents (c : Crypto) (t : FixedMerkleAppendTree) (xs : List QHash256) : Prop where
  next : t.nextIndex.toNat = xs.length
  root : t.currentRoot = treeRoot c xs
  siblings : ∀ i : Fin TREE_HEIGHT, t.nextSiblings.get i =
    MerkleTree.frontier (hashTwoToOne c) zeroHash (leaves (zeroHash 0) xs) xs.length i

theorem and_one_eq_zero (n : UInt64) : n &&& 1 = 0 ↔ n.toNat % 2 = 0 := by
  rw [← UInt64.toNat_inj, UInt64.toNat_and]
  change n.toNat &&& 1 = 0 ↔ _
  rw [Nat.and_one_is_mod]

theorem and_one_eq_one (n : UInt64) : n &&& 1 = 1 ↔ n.toNat % 2 = 1 := by
  rw [← UInt64.toNat_inj, UInt64.toNat_and]
  change n.toNat &&& 1 = 1 ↔ _
  rw [Nat.and_one_is_mod]

theorem shiftRight_one_toNat (n : UInt64) : (n >>> 1).toNat = n.toNat / 2 := by
  rw [UInt64.toNat_shiftRight]
  change n.toNat >>> 1 = _
  rw [Nat.shiftRight_one]

theorem foldl_climb (v : QHash256) (index : UInt64) (siblings : List QHash256) :
    ∃ rest : UInt64, rest.toNat = index.toNat / 2 ^ siblings.length ∧
      siblings.foldl (fun (cur, idx) sibling =>
        (if idx &&& 1 = 0 then hashTwoToOne c cur sibling else hashTwoToOne c sibling cur,
          idx >>> 1)) (v, index) = (climb (hashTwoToOne c) v index.toNat siblings, rest) := by
  induction siblings generalizing v index with
  | nil => exact ⟨index, by rw [List.length_nil, pow_zero, Nat.div_one], rfl⟩
  | cons s siblings ih =>
    obtain ⟨rest, hrest, hfold⟩ := ih (lift (hashTwoToOne c) v index.toNat s) (index >>> 1)
    rw [shiftRight_one_toNat] at hrest hfold
    refine ⟨rest, ?_, ?_⟩
    · rw [hrest, List.length_cons, pow_succ', Nat.div_div_eq_div_mul]
    · rw [List.foldl_cons, climb, ← hfold]
      simp only [and_one_eq_zero, lift]

theorem computeMerkleRoot_some {v root : QHash256} {index : UInt64} {siblings : List QHash256} :
    computeMerkleRoot c v index siblings = some root ↔
      index.toNat < 2 ^ siblings.length ∧
        climb (hashTwoToOne c) v index.toNat siblings = root := by
  obtain ⟨rest, hrest, hfold⟩ := foldl_climb (c := c) v index siblings
  have hzero : rest = 0 ↔ index.toNat < 2 ^ siblings.length := by
    rw [← UInt64.toNat_inj, hrest]
    exact Nat.div_eq_zero_iff_lt (Nat.two_pow_pos _)
  unfold computeMerkleRoot
  rw [hfold]
  dsimp only
  by_cases h : index.toNat < 2 ^ siblings.length
  · rw [if_pos (hzero.mpr h), Option.some.injEq, and_iff_right h]
  · rw [if_neg fun h0 => h (hzero.mp h0)]
    constructor
    · intro hnone
      cases hnone
    · intro hand
      exact absurd hand.1 h

section AnyTree

variable {t : FixedMerkleAppendTree}

theorem Climb.level_eq (s : Climb) (i : Fin TREE_HEIGHT) :
    s.level c i =
      { siblings := if s.changes &&& 1 = 1 then
          s.siblings.set i (if s.index &&& 1 = 0 then s.current else zeroHash i) i.isLt
          else s.siblings
        current := if s.index &&& 1 = 0 then hashTwoToOne c s.current (zeroHash i)
          else hashTwoToOne c (s.siblings.get i) s.current
        index := s.index >>> 1
        changes := s.changes >>> 1 } := by
  unfold Climb.level
  split <;> rfl

theorem get_set_self {α : Type} {n : ℕ} (a : Vector α n) (i : Fin n) (x : α) :
    (a.set i x).get i = x := Vector.getElem_set_self i.isLt

theorem get_set_ne {α : Type} {n : ℕ} (a : Vector α n) {i j : Fin n} (x : α) (h : j ≠ i) :
    (a.set i x).get j = a.get j :=
  Vector.getElem_set_ne i.isLt j.isLt fun hij => h (Fin.ext hij.symm)

section SetAt

variable {α : Type} {n : ℕ} {a : Vector α n} {f : Fin n → α} {i : Fin n} {x : α}

theorem set_below (h : ∀ j : Fin n, j.val < i.val → a.get j = f j) (hx : x = f i) (j : Fin n)
    (hj : j.val < i.val + 1) : (a.set i x).get j = f j := by
  by_cases hji : j = i
  · rw [hji, get_set_self, hx]
  · rw [get_set_ne _ _ hji]
    exact h j (by have := Fin.val_ne_of_ne hji; omega)

theorem set_above (h : ∀ j : Fin n, i.val ≤ j.val → a.get j = f j) (j : Fin n)
    (hj : i.val + 1 ≤ j.val) : (a.set i x).get j = f j := by
  have hji : j ≠ i := by
    rintro rfl
    omega
  rw [get_set_ne _ _ hji]
  exact h j (by omega)

end SetAt

/-- What an append takes for the sibling of a level: the kept one to the left, and the empty tree
to the right. -/
def readAt (t : FixedMerkleAppendTree) (i : Fin TREE_HEIGHT) : QHash256 :=
  if t.nextIndex.toNat / 2 ^ i.val % 2 = 0 then zeroHash i else t.nextSiblings.get i

def reads (t : FixedMerkleAppendTree) : List QHash256 := (List.finRange TREE_HEIGHT).map (readAt t)

theorem reads_length : (reads t).length = TREE_HEIGHT := by
  rw [reads, List.length_map, List.length_finRange]

theorem reads_get (i : Fin TREE_HEIGHT) : (reads t)[i.val]? = some (readAt t i) := by
  rw [reads, List.getElem?_map,
    List.getElem?_eq_getElem (by rw [List.length_finRange]; exact i.isLt), List.getElem_finRange]
  rfl

def risen (c : Crypto) (t : FixedMerkleAppendTree) (v : QHash256) (i : ℕ) : QHash256 :=
  climb (hashTwoToOne c) v t.nextIndex.toNat ((reads t).take i)

theorem risen_succ (i : Fin TREE_HEIGHT) :
    risen c t v (i + 1) =
      lift (hashTwoToOne c) (risen c t v i) (t.nextIndex.toNat / 2 ^ i.val) (readAt t i) := by
  have hlen : ((reads t).take i).length = i.val := by
    rw [List.length_take, reads_length]
    exact Nat.min_eq_left i.isLt.le
  rw [risen, List.take_add_one, reads_get, Option.toList_some, climb_append, hlen]
  rfl

def keptAfter (c : Crypto) (t : FixedMerkleAppendTree) (v : QHash256) (i : Fin TREE_HEIGHT) :
    QHash256 :=
  if (t.nextIndex ^^^ (t.nextIndex + 1)).toNat / 2 ^ i.val % 2 = 1 then
    if t.nextIndex.toNat / 2 ^ i.val % 2 = 0 then risen c t v i else zeroHash i
  else t.nextSiblings.get i

structure AtAppend (c : Crypto) (t : FixedMerkleAppendTree) (v : QHash256) (i : ℕ) (s : Climb) :
    Prop where
  index : s.index.toNat = t.nextIndex.toNat / 2 ^ i
  changes : s.changes.toNat = (t.nextIndex ^^^ (t.nextIndex + 1)).toNat / 2 ^ i
  current : s.current = risen c t v i
  below : ∀ j : Fin TREE_HEIGHT, j.val < i → s.siblings.get j = keptAfter c t v j
  above : ∀ j : Fin TREE_HEIGHT, i ≤ j.val → s.siblings.get j = t.nextSiblings.get j

theorem AtAppend.level {i : Fin TREE_HEIGHT} {s : Climb} (h : AtAppend c t v i s) :
    AtAppend c t v (i + 1) (s.level c i) := by
  have hbit : s.changes &&& 1 = 1 ↔
      (t.nextIndex ^^^ (t.nextIndex + 1)).toNat / 2 ^ i.val % 2 = 1 := by
    rw [and_one_eq_one, h.changes]
  have heven : s.index &&& 1 = 0 ↔ t.nextIndex.toNat / 2 ^ i.val % 2 = 0 := by
    rw [and_one_eq_zero, h.index]
  have hsame : s.siblings.get i = t.nextSiblings.get i := h.above i le_rfl
  have helse (j : Fin TREE_HEIGHT) (hj : j ≠ i) : (s.level c i).siblings.get j =
      s.siblings.get j := by
    rw [Climb.level_eq]
    dsimp only
    split
    · exact get_set_ne _ _ hj
    · rfl
  have hhere : (s.level c i).siblings.get i = keptAfter c t v i := by
    rw [Climb.level_eq, keptAfter]
    dsimp only
    simp only [hbit, heven]
    split
    · rw [get_set_self, h.current]
    · exact hsame
  constructor
  · rw [Climb.level_eq, shiftRight_one_toNat, h.index, div_pow_succ]
  · rw [Climb.level_eq, shiftRight_one_toNat, h.changes, div_pow_succ]
  · rw [Climb.level_eq, risen_succ, lift, readAt]
    simp only [heven]
    rw [h.current, hsame]
    split
    · rfl
    · rfl
  · intro j hj
    by_cases hji : j = i
    · rw [hji]
      exact hhere
    · rw [helse j hji]
      exact h.below j (by have := Fin.val_ne_of_ne hji; omega)
  · intro j hj
    have hji : j ≠ i := by
      intro heq
      rw [heq] at hj
      omega
    rw [helse j hji]
    exact h.above j (by omega)

theorem append_any (c : Crypto) (t : FixedMerkleAppendTree) (v : QHash256) :
    (t.append c v).currentRoot = climb (hashTwoToOne c) v t.nextIndex.toNat (reads t) ∧
      ∀ i, (t.append c v).nextSiblings.get i = keptAfter c t v i := by
  have hloop : AtAppend c t v TREE_HEIGHT
      (updateSiblingsAppendMerkleTree c t.nextSiblings v t.nextIndex) := by
    refine loop_invariant (P := AtAppend c t v) ?_ fun i s hs => hs.level
    refine ⟨?_, ?_, rfl, ?_, fun _ _ => rfl⟩
    · rw [pow_zero, Nat.div_one]
    · rw [pow_zero, Nat.div_one]
    · intro j hj
      exact absurd hj (Nat.not_lt_zero _)
  constructor
  · have hroot := hloop.current
    rw [risen, List.take_of_length_le reads_length.le] at hroot
    exact hroot
  · exact fun i => hloop.below i i.isLt

end AnyTree

theorem leaves_length (xs : List QHash256) (v : QHash256) :
    leaves (zeroHash 0) (xs ++ [v]) xs.length = v := by
  rw [leaves, List.getD_append_right _ _ _ _ le_rfl, Nat.sub_self]
  rfl

theorem leaves_append (xs : List QHash256) (v : QHash256) :
    leaves (zeroHash 0) (xs ++ [v]) = Function.update (leaves (zeroHash 0) xs) xs.length v := by
  funext k
  by_cases hk : k = xs.length
  · rw [hk, Function.update_self, leaves_length]
  · rw [Function.update_of_ne hk, leaves, leaves]
    rcases Nat.lt_or_gt_of_ne hk with hlt | hgt
    · exact List.getD_append _ _ _ _ hlt
    · rw [List.getD_eq_default _ _ hgt.le, List.getD_eq_default]
      rw [List.length_append, List.length_singleton]
      exact hgt

section

variable (hc : TableConsistent c)
include hc

theorem newEmpty_represents :
    Represents c FixedMerkleAppendTree.newEmpty [] := by
  refine ⟨rfl, ?_, ?_⟩
  · exact (node_beyond [] hc le_rfl (Nat.zero_le _)).symm
  · intro i
    rw [List.length_nil, frontier_zero]
    exact Vector.getElem_ofFn i.isLt

theorem Represents.reads {t : FixedMerkleAppendTree} (h : Represents c t xs) :
    reads t = path (hashTwoToOne c) (leaves (zeroHash 0) xs) xs.length TREE_HEIGHT := by
  refine List.ext_getElem? fun i => ?_
  by_cases hi : i < TREE_HEIGHT
  · rw [reads_get ⟨i, hi⟩, path, List.getElem?_map, List.getElem?_range hi, Option.map_some,
      sibling_next xs hc hi.le, readAt, h.next, h.siblings]
    by_cases heven : xs.length / 2 ^ i % 2 = 0
    · have hclear : ¬ xs.length.testBit i = true := fun hb => by
        have := (testBit_iff _ _).mp hb
        omega
      rw [if_pos heven, MerkleTree.frontier, if_neg hclear]
    · rw [if_neg heven]
  · rw [List.getElem?_eq_none (by rw [reads_length]; omega), List.getElem?_eq_none]
    rw [path, List.length_map, List.length_range]
    omega

theorem Represents.risen {t : FixedMerkleAppendTree} (h : Represents c t xs) {i : ℕ}
    (hi : i ≤ TREE_HEIGHT) :
    risen c t v i =
      node (hashTwoToOne c) (leaves (zeroHash 0) (xs ++ [v])) i (xs.length / 2 ^ i) := by
  rw [AppendHistory.risen, h.reads hc, h.next, path, ← List.map_take, List.take_range,
    Nat.min_eq_left hi, leaves_append]
  exact climb_update _ _ _ _

theorem Represents.append {t : FixedMerkleAppendTree} (h : Represents c t xs)
    (room : xs.length < 2 ^ 32) :
    Represents c (t.append c v) (xs ++ [v]) := by
  have hone : (1 : UInt64).toNat = 1 := rfl
  have hnext : (t.nextIndex + 1).toNat = xs.length + 1 := by
    rw [UInt64.toNat_add, h.next, hone]
    omega
  obtain ⟨hroot, hkept⟩ := append_any c t v
  refine ⟨?_, ?_, ?_⟩
  · rw [FixedMerkleAppendTree.append_nextIndex, hnext, List.length_append, List.length_singleton]
  · have htop : xs.length / 2 ^ TREE_HEIGHT = 0 := Nat.div_eq_of_lt room
    rw [hroot, h.reads hc, h.next, climb_update, ← leaves_append, htop, treeRoot]
  · intro i
    have hbit : (t.nextIndex ^^^ (t.nextIndex + 1)).toNat / 2 ^ i.val % 2 = 1 ↔
        2 ^ i.val ∣ xs.length + 1 := by
      rw [UInt64.toNat_xor, hnext, h.next, ← testBit_iff, changes_iff]
    rw [hkept, keptAfter, h.risen hc i.isLt.le, h.next, h.siblings, List.length_append,
      List.length_singleton, frontier_append]
    simp only [hbit]

theorem appended_represents (hlen : xs.length ≤ 2 ^ 32) :
    Represents c (xs.foldl (FixedMerkleAppendTree.append c) .newEmpty) xs := by
  induction xs using List.reverseRecOn with
  | nil => exact newEmpty_represents hc
  | append_singleton xs v ih =>
    rw [List.length_append, List.length_singleton] at hlen
    rw [List.foldl_append]
    exact (ih (by omega)).append hc (by omega)

end

/-- Any list of up to `2 ^ 32` leaves, appended one by one to the empty tree. The bits of the
number of leaves say which of the kept siblings are complete subtrees. -/
theorem appended_tree (c : Crypto)
    (table : ∀ i < TREE_HEIGHT, zeroHash (i + 1) = hashTwoToOne c (zeroHash i) (zeroHash i))
    (xs : List QHash256) (hlen : xs.length ≤ 2 ^ 32) :
    (xs.foldl (FixedMerkleAppendTree.append c) .newEmpty).currentRoot =
        node (hashTwoToOne c) (leaves (zeroHash 0) xs) TREE_HEIGHT 0 ∧
      (xs.foldl (FixedMerkleAppendTree.append c) .newEmpty).nextIndex.toNat = xs.length ∧
      ∀ i : Fin TREE_HEIGHT,
        (xs.foldl (FixedMerkleAppendTree.append c) .newEmpty).nextSiblings.get i =
          if xs.length.testBit i then
            node (hashTwoToOne c) (leaves (zeroHash 0) xs) i (xs.length / 2 ^ i.val - 1)
          else zeroHash i := by
  have h := appended_represents table hlen
  exact ⟨h.root, h.next, h.siblings⟩

def shaOnly : Crypto := ⟨Sha256.sha256, fun _ _ _ => false⟩

theorem shaOnly_table : TableConsistent shaOnly := by
  unfold TableConsistent Consistent
  decide +kernel

/-- Three leaves under SHA-256: the two lowest siblings are the third leaf and the node over the
first two. -/
theorem appended_three :
    (3 : ℕ) ≤ 2 ^ 32 ∧
      ([zeroHash 5, zeroHash 6, zeroHash 7].foldl (FixedMerkleAppendTree.append shaOnly)
        .newEmpty).nextSiblings.get ⟨0, by decide⟩ = zeroHash 7 ∧
      ([zeroHash 5, zeroHash 6, zeroHash 7].foldl (FixedMerkleAppendTree.append shaOnly)
        .newEmpty).nextSiblings.get ⟨1, by decide⟩ =
          hashTwoToOne shaOnly (zeroHash 5) (zeroHash 6) := by
  obtain ⟨-, -, hsiblings⟩ :=
    appended_tree shaOnly shaOnly_table [zeroHash 5, zeroHash 6, zeroHash 7] (by decide)
  exact ⟨by decide, hsiblings ⟨0, _⟩, hsiblings ⟨1, _⟩⟩

end AppendHistory
