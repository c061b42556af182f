import PsyDogeBridge.AppendHistory

/-! The reverts of the append-only tree write to it level by level. What they leave when they fail,
and whether they notice a wrong number of siblings. -/
namespace FailedReverts

open CheckedSteps SolanaRuntime BridgeData AppendTree MerkleTree AppendHistory

/-- The levels at which a revert from `n` to `m` has to be told the sibling: `m` goes to the right
there, and `m` and `n` still differ at or above. -/
def changedAt (m n i : ℕ) : Prop := m / 2 ^ i % 2 = 1 ∧ (m ^^^ n) / 2 ^ i ≠ 0

instance (m n : ℕ) : DecidablePred (changedAt m n) := fun _ => inferInstanceAs (Decidable (_ ∧ _))

theorem ne_zero_iff (k : UInt64) : k ≠ 0 ↔ k.toNat ≠ 0 := by
  rw [ne_eq, ← UInt64.toNat_inj]
  rfl

theorem bit_iff {target : UInt64} {m : ℕ} (hm : target.toNat = m) (i : Fin TREE_HEIGHT) :
    target &&& (1 <<< UInt64.ofNat i) ≠ 0 ↔ m / 2 ^ i.val % 2 = 1 := by
  have hi : i.val < 32 := i.isLt
  have hshift : (1 <<< UInt64.ofNat i : UInt64).toNat = 2 ^ i.val := by
    have hpow : 2 ^ i.val < 2 ^ 64 := Nat.pow_lt_pow_right (by decide) (by omega)
    have hone : (1 : UInt64).toNat = 1 := rfl
    have hindex : (UInt64.ofNat i).toNat % 64 = i.val := by
      rw [UInt64.toNat_ofNat']
      omega
    rw [UInt64.toNat_shiftLeft, hone, hindex, Nat.one_shiftLeft, Nat.mod_eq_of_lt hpow]
  rw [ne_zero_iff, UInt64.toNat_and, hm, hshift, Nat.and_two_pow, ← testBit_iff]
  cases m.testBit i with
  | false => simp
  | true => simp

variable {c : Crypto} {t : FixedMerkleAppendTree} {given : List QHash256} {m n p i : ℕ}

/-- A function on the tree that reports every wrong number of siblings and leaves the tree as it was
whenever it reports an error. A panic is not a report. -/
structure CleanFailure (t : FixedMerkleAppendTree)
    (out : FixedMerkleAppendTree × QDogeResult Unit) (given required : ℕ) : Prop where
  unchanged : ∀ e, out.2 = .error (coreError e) → out.1 = t
  wrongCount : given ≠ required → ∃ e, out.2 = .error (coreError e)

section Outcomes

variable {t' : FixedMerkleAppendTree} {k required : ℕ}

theorem cleanFailure_unreported {result : QDogeResult Unit}
    (hresult : ∀ e, result ≠ .error (coreError e)) :
    CleanFailure t (t', result) k required ↔ k = required := by
  constructor
  · intro h
    by_contra hne
    obtain ⟨e, he⟩ := h.wrongCount hne
    exact hresult e he
  · rintro rfl
    exact ⟨fun e he => absurd he (hresult e), fun hne => absurd rfl hne⟩

theorem cleanFailure_ok : CleanFailure t (t', .ok ()) k required ↔ k = required :=
  cleanFailure_unreported fun e he => by cases he

theorem cleanFailure_error {e : DogeBridgeError} :
    CleanFailure t (t', .error (coreError e)) k required ↔ t' = t := by
  constructor
  · exact fun h => h.unchanged e rfl
  · exact fun heq => ⟨fun _ _ => heq, fun _ => ⟨e, rfl⟩⟩

theorem siblings_kept_iff {siblings : Vector QHash256 TREE_HEIGHT} :
    { t with nextSiblings := siblings } = t ↔
      ∀ j : Fin TREE_HEIGHT, siblings.get j = t.nextSiblings.get j := by
  constructor
  · intro heq j
    exact congrArg (fun t : FixedMerkleAppendTree => t.nextSiblings.get j) heq
  · intro hall
    have hsame : siblings = t.nextSiblings := Vector.ext fun j hj => hall ⟨j, hj⟩
    rw [hsame]

end Outcomes

section Stops

variable {P : ℕ → Prop} [DecidablePred P]

/-- A loop that needs a sibling at each level with `P` and is given `k` stops at the level with
exactly `k` such levels below. The levels before are the ones up to which `k` siblings suffice. -/
theorem before_stop_iff {k j : ℕ} (hi : P i) (hk : Nat.count P i = k) :
    j < i ↔ Nat.count P (j + 1) ≤ k := by
  constructor
  · intro hj
    rw [← hk]
    exact Nat.count_monotone P hj
  · intro hle
    by_contra hge
    have hnext : Nat.count P (i + 1) = k + 1 := by
      rw [Nat.count_succ, if_pos hi, hk]
    have hmono := Nat.count_monotone P (by omega : i + 1 ≤ j + 1)
    omega

def OutOfSiblings (P : ℕ → Prop) [DecidablePred P] (k i : ℕ) (e : Failure BridgeFault) : Prop :=
  P i ∧ Nat.count P i = k ∧ e = coreError .notEnoughChangedLeftSiblings

/-- If the levels below `i` are written, the tree is as before exactly if they held these values. -/
theorem kept_iff {k : ℕ} {written : ℕ → QHash256} {siblings : Vector QHash256 TREE_HEIGHT}
    (hbefore : ∀ j : Fin TREE_HEIGHT, j.val < i ↔ Nat.count P (j + 1) ≤ k)
    (below : ∀ j : Fin TREE_HEIGHT, j.val < i → siblings.get j = written j)
    (above : ∀ j : Fin TREE_HEIGHT, i ≤ j.val → siblings.get j = t.nextSiblings.get j) :
    { t with nextSiblings := siblings } = t ↔
      ∀ j : Fin TREE_HEIGHT, Nat.count P (j + 1) ≤ k → t.nextSiblings.get j = written j := by
  rw [siblings_kept_iff]
  constructor
  · intro hall j hj
    rw [← hall j, below j ((hbefore j).mpr hj)]
  · intro hall j
    by_cases hj : j.val < i
    · rw [below j hj, hall j ((hbefore j).mp hj)]
    · exact above j (by omega)

theorem count_lt_of_stop {k : ℕ} (hi : P i) (hk : Nat.count P i = k) (hlt : i < TREE_HEIGHT) :
    k < Nat.count P TREE_HEIGHT := hk ▸ Nat.count_strict_mono hi hlt

end Stops

def nextWritten (m n : ℕ) (given : List QHash256) (j : ℕ) : QHash256 :=
  if m / 2 ^ j % 2 = 1 then given.getD (Nat.count (changedAt m n) j) zeroBytes else zeroHash j

structure AtNext (t : FixedMerkleAppendTree) (given : List QHash256) (m n i : ℕ) (s : Revert) :
    Prop where
  changedIndex : s.changedIndex.toNat = (m ^^^ n) / 2 ^ i
  changedIdx : s.changedIdx = Nat.count (changedAt m n) i
  enough : Nat.count (changedAt m n) i ≤ given.length
  below : ∀ j : Fin TREE_HEIGHT, j.val < i → s.siblings.get j =
    if (m ^^^ n) / 2 ^ j.val = 0 then t.nextSiblings.get j else nextWritten m n given j
  above : ∀ j : Fin TREE_HEIGHT, i ≤ j.val → s.siblings.get j = t.nextSiblings.get j

theorem AtNext.set {i : Fin TREE_HEIGHT} {s : Revert} {k : ℕ} {x : QHash256}
    (h : AtNext t given m n i s) (hdiffer : (m ^^^ n) / 2 ^ i.val ≠ 0)
    (hx : x = nextWritten m n given i) (hk : k = Nat.count (changedAt m n) (i + 1))
    (henough : k ≤ given.length) :
    AtNext t given m n (i + 1) ⟨s.siblings.set i x i.isLt, k, s.changedIndex >>> 1⟩ := by
  refine ⟨?_, hk, hk ▸ henough, set_below h.below ?_, set_above h.above⟩
  · rw [shiftRight_one_toNat, h.changedIndex, div_pow_succ]
  · rw [if_neg hdiffer, hx]

theorem AtNext.level {target : UInt64} {i : Fin TREE_HEIGHT} {s : Revert} (hm : target.toNat = m)
    (h : AtNext t given m n i s) :
    (∃ s', s.level target given i = .ok s' ∧ AtNext t given m n (i + 1) s') ∨
      ∃ e, s.level target given i = .error e ∧
        OutOfSiblings (changedAt m n) given.length i e := by
  have hsucc : Nat.count (changedAt m n) (i + 1) =
      Nat.count (changedAt m n) i + if changedAt m n i then 1 else 0 := Nat.count_succ _ _
  rw [Revert.level]
  by_cases hdone : s.changedIndex = 0
  · have hzero : (m ^^^ n) / 2 ^ i.val = 0 := by
      rw [← h.changedIndex, hdone]
      rfl
    have hnot : ¬ changedAt m n i := fun hc => hc.2 hzero
    rw [if_neg hnot] at hsucc
    rw [if_pos hdone]
    refine .inl ⟨s, rfl, ?_, ?_, ?_, ?_, fun j hj => h.above j (by omega)⟩
    · rw [h.changedIndex, div_pow_succ, hzero]
    · rw [hsucc, h.changedIdx, Nat.add_zero]
    · rw [hsucc]
      exact h.enough
    · intro j hj
      rcases Nat.lt_succ_iff_lt_or_eq.mp hj with hlt | heq
      · exact h.below j hlt
      · rw [h.above j heq.ge, heq, if_pos hzero]
  · have hdiffer : (m ^^^ n) / 2 ^ i.val ≠ 0 := by
      rw [← h.changedIndex]
      exact (ne_zero_iff _).mp hdone
    rw [if_neg hdone]
    by_cases hright : m / 2 ^ i.val % 2 = 1
    · have hchanged : changedAt m n i := ⟨hright, hdiffer⟩
      rw [if_pos hchanged] at hsucc
      rw [if_pos ((bit_iff hm i).mpr hright), h.changedIdx]
      cases hget : given[Nat.count (changedAt m n) i]? with
      | none =>
        have hlen := List.getElem?_eq_none_iff.mp hget
        exact .inr ⟨_, rfl, hchanged, le_antisymm h.enough hlen, rfl⟩
      | some x =>
        have hlen := (List.getElem?_eq_some_iff.mp hget).1
        refine .inl ⟨_, rfl, h.set hdiffer ?_ hsucc.symm hlen⟩
        rw [nextWritten, if_pos hright, List.getD_eq_getElem?_getD, hget, Option.getD_some]
    · have hnot : ¬ changedAt m n i := fun hc => hright hc.1
      rw [if_neg hnot] at hsucc
      rw [if_neg (mt (bit_iff hm i).mp hright)]
      refine .inl ⟨_, rfl, h.set hdiffer ?_ ?_ ?_⟩
      · rw [nextWritten, if_neg hright]
      · rw [hsucc, h.changedIdx, Nat.add_zero]
      · rw [h.changedIdx]
        exact h.enough

/-- The loop over all levels goes through, or it stops where the siblings are used up. -/
theorem next_loop (t : FixedMerkleAppendTree) (target : UInt64) (given : List QHash256) :
    (∃ s, inPlace (Revert.level target given) (List.finRange TREE_HEIGHT)
        ⟨t.nextSiblings, 0, target ^^^ t.nextIndex⟩ = (s, .ok ()) ∧
      AtNext t given target.toNat t.nextIndex.toNat TREE_HEIGHT s) ∨
    ∃ (i : Fin TREE_HEIGHT) (s : Revert) (e : Failure BridgeFault),
      inPlace (Revert.level target given) (List.finRange TREE_HEIGHT)
        ⟨t.nextSiblings, 0, target ^^^ t.nextIndex⟩ = (s, .error e) ∧
      AtNext t given target.toNat t.nextIndex.toNat i s ∧
      OutOfSiblings (changedAt target.toNat t.nextIndex.toNat) given.length i e := by
  have hstart : AtNext t given target.toNat t.nextIndex.toNat 0
      ⟨t.nextSiblings, 0, target ^^^ t.nextIndex⟩ := by
    refine ⟨?_, rfl, Nat.zero_le _, ?_, fun _ _ => rfl⟩
    · rw [UInt64.toNat_xor, pow_zero, Nat.div_one]
    · intro j hj
      exact absurd hj (Nat.not_lt_zero _)
  exact loop_in_place hstart fun i s h => h.level rfl

/-- When `revert_to_next_index` fails cleanly: the target is not before the current index, the
number of siblings is right, or there are too few and the levels that are written before this is
noticed hold these values already. -/
def NextKept (t : FixedMerkleAppendTree) (m n : ℕ) (given : List QHash256) : Prop :=
  n ≤ m ∨ given.length = Nat.count (changedAt m n) TREE_HEIGHT ∨
    given.length < Nat.count (changedAt m n) TREE_HEIGHT ∧
      ∀ j : Fin TREE_HEIGHT, Nat.count (changedAt m n) (j + 1) ≤ given.length →
        t.nextSiblings.get j = nextWritten m n given j

theorem early_iff {target current : UInt64} :
    (current = 0 ∨ target ≥ current) ↔ current.toNat ≤ target.toNat := by
  rw [ge_iff_le, UInt64.le_iff_toNat_le, ← UInt64.toNat_inj]
  change current.toNat = 0 ∨ _ ↔ _
  omega

theorem revertToNextIndex_clean_iff (c : Crypto) (t : FixedMerkleAppendTree) (target : UInt64)
    (given : List QHash256) :
    CleanFailure t (t.revertToNextIndexInPlace c target given) given.length
        (Nat.count (changedAt target.toNat t.nextIndex.toNat) TREE_HEIGHT) ↔
      NextKept t target.toNat t.nextIndex.toNat given := by
  rw [FixedMerkleAppendTree.revertToNextIndexInPlace, NextKept]
  by_cases hearly : t.nextIndex = 0 ∨ target ≥ t.nextIndex
  · rw [if_pos hearly, cleanFailure_error]
    exact iff_of_true rfl (.inl (early_iff.mp hearly))
  · rw [if_neg hearly, or_iff_right (mt early_iff.mpr hearly)]
    by_cases hzero : target = 0
    · have hnone : Nat.count (changedAt target.toNat t.nextIndex.toNat) TREE_HEIGHT = 0 := by
        rw [Nat.count_iff_forall_not]
        intro i _ hc
        have hbit := hc.1
        rw [hzero, UInt64.toNat_zero, Nat.zero_div] at hbit
        cases hbit
      rw [if_pos hzero, cleanFailure_ok, hnone]
      exact (or_iff_left fun h => absurd h.1 (Nat.not_lt_zero _)).symm
    · rw [if_neg hzero]
      rcases next_loop t target given with
        ⟨s, hloop, hlast⟩ | ⟨i, s, e, hloop, hs, hchanged, hcount, rfl⟩
      · rw [hloop]
        have hright : ¬ (given.length < Nat.count (changedAt target.toNat t.nextIndex.toNat)
            TREE_HEIGHT ∧ ∀ j : Fin TREE_HEIGHT,
              Nat.count (changedAt target.toNat t.nextIndex.toNat) (j + 1) ≤ given.length →
                t.nextSiblings.get j = nextWritten target.toNat t.nextIndex.toNat given j) :=
          fun h => absurd hlast.enough (Nat.not_le.mpr h.1)
        rw [or_iff_left hright]
        dsimp only
        cases computeMerkleRoot c zeroBytes target s.siblings.toList with
        | none => exact cleanFailure_unreported fun e he => by cases he
        | some root => exact cleanFailure_ok
      · have hlt := count_lt_of_stop hchanged hcount i.isLt
        rw [hloop]
        dsimp only
        -- As long as a sibling is still needed the two indices differ.
        have hdiffer (j : ℕ) (hj : j < i.val) :
            (target.toNat ^^^ t.nextIndex.toNat) / 2 ^ j ≠ 0 := by
          intro hzero
          refine hchanged.2 (Nat.eq_zero_of_le_zero ?_)
          rw [← hzero]
          exact Nat.div_le_div_left (Nat.pow_le_pow_right Nat.two_pos hj.le) (Nat.two_pow_pos j)
        rw [cleanFailure_error, or_iff_right hlt.ne, and_iff_right hlt]
        exact kept_iff (fun j => before_stop_iff hchanged hcount)
          (fun j hj => (hs.below j hj).trans (if_neg (hdiffer j hj))) hs.above

section Index

variable {value : QHash256}

def rightAt (p i : ℕ) : Prop := p / 2 ^ i % 2 = 1

instance (p : ℕ) : DecidablePred (rightAt p) := fun _ => inferInstanceAs (Decidable (_ = _))

def pathTaken (p : ℕ) (given : List QHash256) (i : ℕ) : QHash256 :=
  if rightAt p i then given.getD (Nat.count (rightAt p) i) zeroBytes else zeroHash i

def pathNode (c : Crypto) (p : ℕ) (value : QHash256) (given : List QHash256) (i : ℕ) : QHash256 :=
  climb (hashTwoToOne c) value p ((List.range i).map (pathTaken p given))

def pathWritten (c : Crypto) (p : ℕ) (value : QHash256) (given : List QHash256) (i : ℕ) :
    QHash256 :=
  if rightAt p i then zeroHash i else pathNode c p value given i

theorem pathNode_succ (i : ℕ) :
    pathNode c p value given (i + 1) =
      lift (hashTwoToOne c) (pathNode c p value given i) (p / 2 ^ i) (pathTaken p given i) := by
  have hlen : ((List.range i).map (pathTaken p given)).length = i := by
    rw [List.length_map, List.length_range]
  rw [pathNode, List.range_succ, List.map_append, climb_append, hlen]
  rfl

structure AtIndex (c : Crypto) (t : FixedMerkleAppendTree) (value : QHash256)
    (given : List QHash256) (p i : ℕ) (s : RevertPath) : Prop where
  path : s.revertPathIndex.toNat = p / 2 ^ i
  used : s.siblingIdx = Nat.count (rightAt p) i
  enough : Nat.count (rightAt p) i ≤ given.length
  current : s.currentHash = pathNode c p value given i
  below : ∀ j : Fin TREE_HEIGHT, j.val < i → s.siblings.get j = pathWritten c p value given j
  above : ∀ j : Fin TREE_HEIGHT, i ≤ j.val → s.siblings.get j = t.nextSiblings.get j

theorem AtIndex.set {i : Fin TREE_HEIGHT} {s : RevertPath} {k : ℕ} {x y : QHash256}
    (h : AtIndex c t value given p i s) (hx : x = pathWritten c p value given i)
    (hy : y = pathNode c p value given (i + 1)) (hk : k = Nat.count (rightAt p) (i + 1))
    (henough : k ≤ given.length) :
    AtIndex c t value given p (i + 1)
      ⟨s.siblings.set i x i.isLt, y, s.revertPathIndex >>> 1, k⟩ := by
  refine ⟨?_, hk, hk ▸ henough, hy, set_below h.below hx, set_above h.above⟩
  rw [shiftRight_one_toNat, h.path, div_pow_succ]

theorem AtIndex.level {i : Fin TREE_HEIGHT} {s : RevertPath} (h : AtIndex c t value given p i s) :
    (∃ s', s.level c given i = .ok s' ∧ AtIndex c t value given p (i + 1) s') ∨
      ∃ e, s.level c given i = .error e ∧ OutOfSiblings (rightAt p) given.length i e := by
  have hsucc : Nat.count (rightAt p) (i + 1) =
      Nat.count (rightAt p) i + if rightAt p i then 1 else 0 := Nat.count_succ _ _
  have hbit : s.revertPathIndex &&& 1 = 1 ↔ rightAt p i := by
    rw [and_one_eq_one, h.path, rightAt]
  rw [RevertPath.level]
  by_cases hright : rightAt p i
  · have heven : ¬ p / 2 ^ i.val % 2 = 0 := by
      have hodd : p / 2 ^ i.val % 2 = 1 := hright
      omega
    rw [if_pos hright] at hsucc
    rw [if_pos (hbit.mpr hright), h.used]
    cases hget : given[Nat.count (rightAt p) i]? with
    | none =>
      have hlen := List.getElem?_eq_none_iff.mp hget
      exact .inr ⟨_, rfl, hright, le_antisymm h.enough hlen, rfl⟩
    | some x =>
      have hlen := (List.getElem?_eq_some_iff.mp hget).1
      have htaken : pathTaken p given i = x := by
        rw [pathTaken, if_pos hright, List.getD_eq_getElem?_getD, hget, Option.getD_some]
      refine .inl ⟨_, rfl, h.set ?_ ?_ hsucc.symm hlen⟩
      · rw [pathWritten, if_pos hright]
      · rw [pathNode_succ, htaken, lift, if_neg heven, h.current]
  · have heven : p / 2 ^ i.val % 2 = 0 := by
      have hodd : ¬ p / 2 ^ i.val % 2 = 1 := hright
      omega
    rw [if_neg hright] at hsucc
    rw [if_neg (mt hbit.mp hright)]
    refine .inl ⟨_, rfl, h.set ?_ ?_ ?_ ?_⟩
    · rw [pathWritten, if_neg hright, h.current]
    · rw [pathNode_succ, pathTaken, if_neg hright, lift, if_pos heven, h.current]
    · rw [hsucc, h.used, Nat.add_zero]
    · rw [h.used]
      exact h.enough

theorem index_loop {index : UInt64} (hpos : index ≠ 0) (c : Crypto) (t : FixedMerkleAppendTree)
    (value : QHash256) (given : List QHash256) :
    (∃ s, inPlace (RevertPath.level c given) (List.finRange TREE_HEIGHT)
        ⟨t.nextSiblings, value, index - 1, 0⟩ = (s, .ok ()) ∧
      AtIndex c t value given (index.toNat - 1) TREE_HEIGHT s) ∨
    ∃ (i : Fin TREE_HEIGHT) (s : RevertPath) (e : Failure BridgeFault),
      inPlace (RevertPath.level c given) (List.finRange TREE_HEIGHT)
        ⟨t.nextSiblings, value, index - 1, 0⟩ = (s, .error e) ∧
      AtIndex c t value given (index.toNat - 1) i s ∧
      OutOfSiblings (rightAt (index.toNat - 1)) given.length i e := by
  have hone : (1 : UInt64).toNat = 1 := rfl
  have hle : 1 ≤ index := by
    have := (ne_zero_iff index).mp hpos
    rw [UInt64.le_iff_toNat_le, hone]
    omega
  have hstart : AtIndex c t value given (index.toNat - 1) 0
      ⟨t.nextSiblings, value, index - 1, 0⟩ := by
    refine ⟨?_, rfl, Nat.zero_le _, rfl, ?_, fun _ _ => rfl⟩
    · rw [pow_zero, Nat.div_one, UInt64.toNat_sub_of_le _ _ hle, hone]
    · intro j hj
      exact absurd hj (Nat.not_lt_zero _)
  exact loop_in_place hstart fun i s h => h.level

/-- When `revert_to_index` to `m` leaves fails cleanly: the target is not before the current index,
the number of siblings is right, or the levels that are written before the error hold these values
already. A revert to no leaves takes any siblings. -/
def IndexKept (c : Crypto) (t : FixedMerkleAppendTree) (m n : ℕ) (value : QHash256)
    (given : List QHash256) : Prop :=
  n ≤ m ∨ given.length = Nat.count (rightAt (m - 1)) TREE_HEIGHT ∨
    m ≠ 0 ∧ ∀ j : Fin TREE_HEIGHT, Nat.count (rightAt (m - 1)) (j + 1) ≤ given.length →
      t.nextSiblings.get j = pathWritten c (m - 1) value given j

theorem revertToIndex_clean_iff (c : Crypto) (t : FixedMerkleAppendTree) (index : UInt64)
    (given : List QHash256) (value : QHash256) :
    CleanFailure t (t.revertToIndexInPlace c index given value) given.length
        (Nat.count (rightAt (index.toNat - 1)) TREE_HEIGHT) ↔
      IndexKept c t index.toNat t.nextIndex.toNat value given := by
  rw [FixedMerkleAppendTree.revertToIndexInPlace, IndexKept]
  by_cases hearly : t.nextIndex = 0 ∨ index ≥ t.nextIndex
  · rw [if_pos hearly, cleanFailure_error]
    exact iff_of_true rfl (.inl (early_iff.mp hearly))
  · rw [if_neg hearly, or_iff_right (mt early_iff.mpr hearly)]
    by_cases hzero : index = 0
    · rw [if_pos hzero, cleanFailure_ok, hzero]
      exact (or_iff_left fun h => h.1 rfl).symm
    · have hpos : index.toNat ≠ 0 := (ne_zero_iff index).mp hzero
      rw [if_neg hzero, and_iff_right hpos]
      rcases index_loop hzero c t value given with
        ⟨s, hloop, hlast⟩ | ⟨i, s, e, hloop, hs, hright, hcount, rfl⟩
      · rw [hloop]
        dsimp only
        rw [hlast.used]
        by_cases hall : given.length = Nat.count (rightAt (index.toNat - 1)) TREE_HEIGHT
        · rw [if_neg (not_not.mpr hall.symm), cleanFailure_ok]
          exact iff_of_true hall (.inl hall)
        · rw [if_pos (Ne.symm hall), cleanFailure_error, or_iff_right hall]
          refine kept_iff (fun j => iff_of_true j.isLt ?_) hlast.below hlast.above
          exact (Nat.count_monotone _ j.isLt).trans hlast.enough
      · have hlt := count_lt_of_stop hright hcount i.isLt
        rw [hloop]
        dsimp only
        rw [cleanFailure_error, or_iff_right hlt.ne]
        exact kept_iff (fun j => before_stop_iff hright hcount) hs.below hs.above

end Index

/-- Both reverts on any tree, to any index and with any siblings: each fails cleanly exactly if the
target is too high, the number of siblings is the required one, or what it writes before it notices
is what the tree already holds. -/
theorem failed_reverts_iff (c : Crypto) (t : FixedMerkleAppendTree) (index : UInt64)
    (given : List QHash256) (value : QHash256) :
    (CleanFailure t (t.revertToNextIndexInPlace c index given) given.length
        (Nat.count (changedAt index.toNat t.nextIndex.toNat) TREE_HEIGHT) ↔
      NextKept t index.toNat t.nextIndex.toNat given) ∧
    (CleanFailure t (t.revertToIndexInPlace c index given value) given.length
        (Nat.count (rightAt (index.toNat - 1)) TREE_HEIGHT) ↔
      IndexKept c t index.toNat t.nextIndex.toNat value given) :=
  ⟨revertToNextIndex_clean_iff c t index given, revertToIndex_clean_iff c t index given value⟩

def fiveLeaves : FixedMerkleAppendTree :=
  ([1, 2, 3, 4, 5].map zeroHash).foldl (FixedMerkleAppendTree.append shaOnly) .newEmpty

theorem fiveLeaves_represents : Represents shaOnly fiveLeaves ([1, 2, 3, 4, 5].map zeroHash) :=
  appended_represents shaOnly_table (by decide)

theorem fiveLeaves_next : fiveLeaves.nextIndex = 5 :=
  UInt64.toNat_inj.mp fiveLeaves_represents.next

def lowestLevel : Fin TREE_HEIGHT := ⟨0, by decide⟩

theorem fiveLeaves_lowest : fiveLeaves.nextSiblings.get lowestLevel = zeroHash 5 :=
  (fiveLeaves_represents.siblings lowestLevel).trans (if_pos (by decide))

/-- One sibling is needed to go back to two leaves, and one to go back to three along the path of
the third. Without it both functions report an error after they have overwritten the fifth leaf. To
go back to four leaves none is needed, and one too many is not noticed. -/
theorem fiveLeaves_spoiled :
    ¬ CleanFailure fiveLeaves (fiveLeaves.revertToNextIndexInPlace shaOnly 2 []) 0 1 ∧
      ¬ CleanFailure fiveLeaves (fiveLeaves.revertToNextIndexInPlace shaOnly 4 [zeroHash 1]) 1 0 ∧
      ¬ CleanFailure fiveLeaves (fiveLeaves.revertToIndexInPlace shaOnly 3 [] (zeroHash 1))
        0 1 := by
  have htwo : Nat.count (changedAt 2 5) TREE_HEIGHT = 1 := by decide
  have hfour : Nat.count (changedAt 4 5) TREE_HEIGHT = 0 := by decide
  have hthree : Nat.count (rightAt 2) TREE_HEIGHT = 1 := by decide
  refine ⟨?_, ?_, ?_⟩
  · have hiff := revertToNextIndex_clean_iff shaOnly fiveLeaves 2 []
    rw [fiveLeaves_next] at hiff
    intro hclean
    rcases hiff.mp (htwo.symm ▸ hclean) with hle | hlen | ⟨-, hall⟩
    · exact absurd hle (by decide)
    · exact absurd (hlen.trans htwo) (by decide)
    · exact absurd (fiveLeaves_lowest.symm.trans (hall lowestLevel (by decide))) (by decide +kernel)
  · have hiff := revertToNextIndex_clean_iff shaOnly fiveLeaves 4 [zeroHash 1]
    rw [fiveLeaves_next] at hiff
    intro hclean
    rcases hiff.mp (hfour.symm ▸ hclean) with hle | hlen | ⟨hlt, -⟩
    · exact absurd hle (by decide)
    · exact absurd (hlen.trans hfour) (by decide)
    · exact absurd (hfour ▸ hlt) (by decide)
  · have hiff := revertToIndex_clean_iff shaOnly fiveLeaves 3 [] (zeroHash 1)
    rw [fiveLeaves_next] at hiff
    intro hclean
    rcases hiff.mp (hthree.symm ▸ hclean) with hle | hlen | ⟨-, hall⟩
    · exact absurd hle (by decide)
    · exact absurd (hlen.trans hthree) (by decide)
    · exact absurd (fiveLeaves_lowest.symm.trans (hall lowestLevel (by decide))) (by decide +kernel)

end FailedReverts
