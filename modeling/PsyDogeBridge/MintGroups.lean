import PsyDogeBridge.BridgeData
import PsyDogeBridge.ByteBitmap

/-! The backlog of finalized blocks whose deposits are still to be minted, and the tracker of
the block that is being minted. Mints are claimed in groups of 24; a bitmap of 32 bytes records
which groups of the current block are done. -/
namespace MintGroups

open PodLayout CheckedSteps BridgeData ByteBitmap

structure PendingMintsTracker where
  lastFinalizedAutoClaimMintsStorageAccount : Vector UInt8 32
  pendingMintGroupsClaimed : Vector UInt8 32
  totalPendingMints : UInt32
  pendingMintsGroupsRemaining : UInt32
  deriving DecidableEq

namespace PendingMintsTracker

def pod : Pod PendingMintsTracker :=
  (hashPod.prod (hashPod.prod (Pod.u32.prod Pod.u32))).record
  { toFun t := (t.lastFinalizedAutoClaimMintsStorageAccount, t.pendingMintGroupsClaimed,
      t.totalPendingMints, t.pendingMintsGroupsRemaining)
    invFun := fun (a, b, c, d) => ⟨a, b, c, d⟩
    left_inv _ := rfl
    right_inv _ := rfl }

def default : PendingMintsTracker := ⟨zeroBytes, zeroBytes, 0, 0⟩

def isEmpty (t : PendingMintsTracker) : Bool := t.pendingMintsGroupsRemaining == 0

/-- Indexing the bitmap outside its 32 bytes panics. -/
def isPendingMintsGroupAlreadyClaimed (t : PendingMintsTracker) (groupIndex : UInt16) :
    QDogeResult Bool :=
  let byteIndex := groupIndex >>> 3
  if h : byteIndex.toNat < 32 then
    .ok ((t.pendingMintGroupsClaimed[byteIndex.toNat] >>> (groupIndex &&& 7).toUInt8) &&& 1 == 1)
  else .error .panic

def getCurrentTotalPendingMintsGroups (t : PendingMintsTracker) : UInt16 :=
  if t.totalPendingMints.toUInt16 % PM_MAX_PENDING_MINTS_PER_GROUP_U16 = 0 then
    t.totalPendingMints.toUInt16 / PM_MAX_PENDING_MINTS_PER_GROUP_U16
  else t.totalPendingMints.toUInt16 / PM_MAX_PENDING_MINTS_PER_GROUP_U16 + 1

def ensureCanClaimPendingMintsGroup (t : PendingMintsTracker) (groupIndex : UInt16) :
    QDogeResult Unit := do
  ensure (¬ (t.totalPendingMints = 0 ∨ t.pendingMintsGroupsRemaining = 0))
    (coreError .noPendingMintsToProcess)
  ensure (groupIndex ≤ 256) (coreError .pendingMintsGroupIndexOutOfBounds)
  ensure (groupIndex < t.getCurrentTotalPendingMintsGroups)
    (coreError .pendingMintsGroupIndexOutOfBounds)
  let claimed ← t.isPendingMintsGroupAlreadyClaimed groupIndex
  ensure (claimed = false) (coreError .pendingMintsGroupAlreadyProcessed)

/-- Returns the tracker and whether the group was the last one. -/
def markPendingMintsGroupClaimed (t : PendingMintsTracker) (groupIndex : UInt16) :
    QDogeResult (PendingMintsTracker × Bool) := do
  ensure (¬ (t.totalPendingMints = 0 ∨ t.pendingMintsGroupsRemaining = 0))
    (coreError .noPendingMintsToProcess)
  ensure (groupIndex ≤ 256) (coreError .pendingMintsGroupIndexOutOfBounds)
  let claimed ← t.isPendingMintsGroupAlreadyClaimed groupIndex
  ensure (claimed = false) (coreError .pendingMintsGroupAlreadyProcessed)
  let byteIndex := groupIndex >>> 3
  if h : byteIndex.toNat < 32 then
    let t' :=
      { t with
        pendingMintGroupsClaimed := t.pendingMintGroupsClaimed.set byteIndex.toNat
          (t.pendingMintGroupsClaimed[byteIndex.toNat] ||| 1 <<< (groupIndex &&& 7).toUInt8)
        pendingMintsGroupsRemaining := t.pendingMintsGroupsRemaining - 1 }
    pure (t', t'.pendingMintsGroupsRemaining == 0)
  else .error .panic

def groupCount (n : ℕ) : ℕ := (n + 23) / 24

variable {n : ℕ}

theorem groupCount_pos : 0 < groupCount n ↔ 0 < n := by
  unfold groupCount
  omega

def groupSize (n g : ℕ) : ℕ := min 24 (n - 24 * g)

theorem groupSize_pos {g : ℕ} (h : g < groupCount n) : 0 < groupSize n g := by
  unfold groupCount at h
  unfold groupSize
  omega

theorem getCurrentTotalPendingMintsGroups_toNat (t : PendingMintsTracker) :
    t.getCurrentTotalPendingMintsGroups.toNat = groupCount (t.totalPendingMints.toNat % 65536) := by
  have hn : t.totalPendingMints.toUInt16.toNat = t.totalPendingMints.toNat % 65536 :=
    UInt32.toNat_toUInt16 _
  have h24 : PM_MAX_PENDING_MINTS_PER_GROUP_U16.toNat = 24 := rfl
  have hz : t.totalPendingMints.toUInt16 % PM_MAX_PENDING_MINTS_PER_GROUP_U16 = 0 ↔
      t.totalPendingMints.toNat % 65536 % 24 = 0 := by
    rw [← UInt16.toNat_inj, UInt16.toNat_mod, hn, h24]
    rfl
  unfold getCurrentTotalPendingMintsGroups groupCount
  split
  · next h =>
    have := hz.mp h
    rw [UInt16.toNat_div, hn, h24]
    omega
  · next h =>
    have hne : t.totalPendingMints.toNat % 65536 % 24 ≠ 0 := fun k => h (hz.mpr k)
    have h1 : (1 : UInt16).toNat = 1 := rfl
    rw [UInt16.toNat_add, UInt16.toNat_div, hn, h24, h1]
    omega

section Claims

variable {t t' : PendingMintsTracker} {g : UInt16}

def isClaimed (t : PendingMintsTracker) (g : ℕ) : Bool :=
  if h : g / 8 < 32 then getBit t.pendingMintGroupsClaimed g h else false

theorem byteIndex_toNat (g : UInt16) : (g >>> 3).toNat = g.toNat / 8 := by
  rw [UInt16.toNat_shiftRight]
  exact Nat.shiftRight_eq_div_pow _ 3

theorem bitIndex_eq (g : UInt16) : (g &&& 7).toUInt8 = UInt8.ofNat (g.toNat % 8) := by
  have h7 : (7 : UInt16).toNat = 2 ^ 3 - 1 := rfl
  apply UInt8.toNat_inj.mp
  rw [UInt16.toNat_toUInt8, UInt16.toNat_and, h7, Nat.and_two_pow_sub_one_eq_mod,
    UInt8.toNat_ofNat']

variable {b : Bool}

theorem isPendingMintsGroupAlreadyClaimed_ok :
    t.isPendingMintsGroupAlreadyClaimed g = .ok b ↔ g.toNat < 256 ∧ t.isClaimed g.toNat = b := by
  unfold isPendingMintsGroupAlreadyClaimed isClaimed
  simp only [byteIndex_toNat, bitIndex_eq]
  have hi : g.toNat / 8 < 32 ↔ g.toNat < 256 := by omega
  split
  · next h => simp [hi.mp h, getBit]
  · next h => simp [show ¬ g.toNat < 256 from fun k => h (hi.mpr k)]

theorem ensureCanClaimPendingMintsGroup_ok {u : Unit} :
    t.ensureCanClaimPendingMintsGroup g = .ok u ↔
      t.totalPendingMints ≠ 0 ∧ t.pendingMintsGroupsRemaining ≠ 0 ∧ g.toNat < 256 ∧
      g < t.getCurrentTotalPendingMintsGroups ∧ t.isClaimed g.toNat = false := by
  simp only [ensureCanClaimPendingMintsGroup, bind_ok, ensure_ok, exists_const, not_or,
    isPendingMintsGroupAlreadyClaimed_ok, UInt16.le_iff_toNat_le]
  constructor
  · rintro ⟨⟨ht, hr⟩, -, hg, b, ⟨h, hb⟩, rfl⟩
    exact ⟨ht, hr, h, hg, hb⟩
  · rintro ⟨ht, hr, h, hg, hb⟩
    exact ⟨⟨ht, hr⟩, Nat.le_of_lt h, hg, _, ⟨h, hb⟩, rfl⟩

def claim (t : PendingMintsTracker) (g : ℕ) : PendingMintsTracker :=
  { t with
    pendingMintGroupsClaimed :=
      if h : g / 8 < 32 then setBit t.pendingMintGroupsClaimed g h else t.pendingMintGroupsClaimed
    pendingMintsGroupsRemaining := t.pendingMintsGroupsRemaining - 1 }

@[simp] theorem claim_remaining (t : PendingMintsTracker) (g : ℕ) :
    (t.claim g).pendingMintsGroupsRemaining = t.pendingMintsGroupsRemaining - 1 := rfl

theorem claim_remaining_toNat {g : ℕ} (h : t.pendingMintsGroupsRemaining ≠ 0) :
    (t.claim g).pendingMintsGroupsRemaining.toNat + 1 = t.pendingMintsGroupsRemaining.toNat := by
  have hone : (1 : UInt32).toNat = 1 := rfl
  have hzero : (0 : UInt32).toNat = 0 := rfl
  have hpos : t.pendingMintsGroupsRemaining.toNat ≠ 0 := by
    intro h0
    exact h (UInt32.toNat_inj.mp (h0.trans hzero.symm))
  rw [claim_remaining, UInt32.toNat_sub_of_le _ _ (UInt32.le_iff_toNat_le.mpr (by omega)), hone]
  omega

@[simp] theorem claim_account (t : PendingMintsTracker) (g : ℕ) :
    (t.claim g).lastFinalizedAutoClaimMintsStorageAccount =
      t.lastFinalizedAutoClaimMintsStorageAccount := rfl

theorem claim_isClaimed {i : ℕ} (hi : i < 256) (j : ℕ) :
    (t.claim i).isClaimed j = (t.isClaimed j || decide (i = j)) := by
  have h : i / 8 < 32 := by omega
  unfold isClaimed claim
  by_cases hj : j / 8 < 32
  · simp [h, hj, getBit_setBit]
  · have hij : i ≠ j := by rintro rfl; exact hj h
    simp [hj, hij]

theorem markPendingMintsGroupClaimed_ok :
    t.markPendingMintsGroupClaimed g = .ok (t', b) ↔
      t.totalPendingMints ≠ 0 ∧ t.pendingMintsGroupsRemaining ≠ 0 ∧ g.toNat < 256 ∧
      t.isClaimed g.toNat = false ∧ t' = t.claim g.toNat ∧ b = (t.claim g.toNat).isEmpty := by
  simp only [markPendingMintsGroupClaimed, bind_ok, ensure_ok, exists_const, not_or,
    isPendingMintsGroupAlreadyClaimed_ok, UInt16.le_iff_toNat_le, byteIndex_toNat, bitIndex_eq]
  have hi : g.toNat / 8 < 32 ↔ g.toNat < 256 := by omega
  constructor
  · rintro ⟨⟨ht, hr⟩, -, c, ⟨hg, hc⟩, rfl, h⟩
    rw [dif_pos (hi.mpr hg), pure_ok, Prod.mk.injEq] at h
    obtain ⟨rfl, rfl⟩ := h
    exact ⟨ht, hr, hg, hc, by simp [claim, hi.mpr hg, setBit], rfl⟩
  · rintro ⟨ht, hr, hg, hc, rfl, rfl⟩
    refine ⟨⟨ht, hr⟩, Nat.le_of_lt hg, _, ⟨hg, hc⟩, rfl, ?_⟩
    rw [dif_pos (hi.mpr hg), pure_ok]
    simp [claim, hi.mpr hg, setBit, isEmpty]

end Claims

end PendingMintsTracker

structure FinalizedBlockMintTxoInfo where
  pendingMintsFinalizedHash : QHash256
  txoOutputListFinalizedHash : QHash256
  deriving DecidableEq

namespace FinalizedBlockMintTxoInfo

def pod : Pod FinalizedBlockMintTxoInfo :=
  (hashPod.prod hashPod).record
  { toFun i := (i.pendingMintsFinalizedHash, i.txoOutputListFinalizedHash)
    invFun := fun (a, b) => ⟨a, b⟩
    left_inv _ := rfl
    right_inv _ := rfl }

def default : FinalizedBlockMintTxoInfo := ⟨zeroBytes, zeroBytes⟩

def isEmpty (i : FinalizedBlockMintTxoInfo) : Bool :=
  i.pendingMintsFinalizedHash == PM_DA_DEFAULT_PENDING_MINTS_BUFFER_HASH &&
    i.txoOutputListFinalizedHash == PM_TXO_DEFAULT_BUFFER_HASH

end FinalizedBlockMintTxoInfo

structure FinalizedBlockMintTxoManager where
  pendingFinalizedInfo : Vector FinalizedBlockMintTxoInfo 8
  pendingFinalizedInfoCurrentIndex : UInt16
  pendingFinalizedInfoTotalCount : UInt16
  startBlockHeight : UInt32
  currentPendingMintsTracker : PendingMintsTracker
  deriving DecidableEq

namespace FinalizedBlockMintTxoManager

def pod : Pod FinalizedBlockMintTxoManager :=
  ((FinalizedBlockMintTxoInfo.pod.array 8).prod (Pod.u16.prod (Pod.u16.prod (Pod.u32.prod
    PendingMintsTracker.pod)))).record
  { toFun m := (m.pendingFinalizedInfo, m.pendingFinalizedInfoCurrentIndex,
      m.pendingFinalizedInfoTotalCount, m.startBlockHeight, m.currentPendingMintsTracker)
    invFun := fun (a, b, c, d, e) => ⟨a, b, c, d, e⟩
    left_inv _ := rfl
    right_inv _ := rfl }

def default : FinalizedBlockMintTxoManager :=
  ⟨Vector.replicate 8 .default, 0, 0, 0, .default⟩

def isEmpty (m : FinalizedBlockMintTxoManager) : Bool :=
  m.pendingFinalizedInfoTotalCount == 0 ||
    (m.pendingFinalizedInfoTotalCount == m.pendingFinalizedInfoCurrentIndex &&
      m.currentPendingMintsTracker.isEmpty)

/-- The loop of `fast_forward_empty`: the first index from `i` on that is not empty, at most
`fuel` further on. -/
def skipEmpty (info : Vector FinalizedBlockMintTxoInfo 8) : ℕ → UInt16 → QDogeResult UInt16
  | 0, i => .ok i
  | fuel + 1, i => do
    let entry ← orFail info[i.toNat]? .panic
    if entry.isEmpty then skipEmpty info fuel (i + 1) else .ok i

def fastForwardEmpty (m : FinalizedBlockMintTxoManager) :
    QDogeResult FinalizedBlockMintTxoManager :=
  if m.pendingFinalizedInfoCurrentIndex ≥ m.pendingFinalizedInfoTotalCount ∨
      ¬ m.currentPendingMintsTracker.isEmpty ∨ m.isEmpty then .ok m
  else do
    let i ← skipEmpty m.pendingFinalizedInfo
      (m.pendingFinalizedInfoTotalCount.toNat - m.pendingFinalizedInfoCurrentIndex.toNat)
      m.pendingFinalizedInfoCurrentIndex
    if i = m.pendingFinalizedInfoCurrentIndex then pure m
    else pure { m with
      pendingFinalizedInfoCurrentIndex := i
      currentPendingMintsTracker := .default }

def markPendingMintsGroupClaimed (m : FinalizedBlockMintTxoManager) (groupIndex : UInt16) :
    QDogeResult (FinalizedBlockMintTxoManager × Bool) := do
  let (tracker, result) ← m.currentPendingMintsTracker.markPendingMintsGroupClaimed groupIndex
  pure ({ m with
    currentPendingMintsTracker := tracker
    pendingFinalizedInfoCurrentIndex :=
      if result ∧ m.pendingFinalizedInfoCurrentIndex < m.pendingFinalizedInfoTotalCount then
        m.pendingFinalizedInfoCurrentIndex + 1
      else m.pendingFinalizedInfoCurrentIndex }, result)

def ensureReadyToStartNextPendingFinalizedInfo (m : FinalizedBlockMintTxoManager) :
    QDogeResult Unit := do
  ensure m.currentPendingMintsTracker.isEmpty (coreError .remainingPendingMintsInPreviousState)
  ensure (m.pendingFinalizedInfoCurrentIndex < m.pendingFinalizedInfoTotalCount)
    (coreError .noPendingMintsToAutoProcess)

def standardAppendBlock (m : FinalizedBlockMintTxoManager) (blockHeight : UInt32)
    (blockGroups : List FinalizedBlockMintTxoInfo)
    (autoClaimMintsStorageAccount : Vector UInt8 32)
    (totalPendingMintsForFirstBlock totalPendingMintsGroupsForFirstBlock : UInt32) :
    QDogeResult FinalizedBlockMintTxoManager := do
  ensure m.isEmpty (coreError .pendingFinalizedBlockMintsNotEmpty)
  ensure (blockGroups.length ≤ 8) (coreError .pendingFinalizedBlockMintsInvalidGroupCount)
  if blockGroups.length = 0 then pure m
  else
    let m₁ ← fastForwardEmpty
      { pendingFinalizedInfo := Vector.ofFn fun i =>
          blockGroups.getD i (m.pendingFinalizedInfo.get i)
        pendingFinalizedInfoCurrentIndex := 0
        pendingFinalizedInfoTotalCount := UInt16.ofNat blockGroups.length
        startBlockHeight := blockHeight
        currentPendingMintsTracker :=
          { PendingMintsTracker.default with
            lastFinalizedAutoClaimMintsStorageAccount := autoClaimMintsStorageAccount } }
    if m₁.isEmpty then
      ensure (¬ (totalPendingMintsForFirstBlock ≠ 0 ∨ totalPendingMintsGroupsForFirstBlock ≠ 0))
        (coreError .pendingFinalizedBlockMintsInvalidAutoClaimMintsData)
      pure m₁
    else
      pure { m₁ with currentPendingMintsTracker :=
        { m₁.currentPendingMintsTracker with
          totalPendingMints := totalPendingMintsForFirstBlock
          pendingMintsGroupsRemaining := totalPendingMintsGroupsForFirstBlock } }

section Backlog

variable {m m' : FinalizedBlockMintTxoManager}

theorem isEmpty_iff : m.isEmpty = true ↔
    m.pendingFinalizedInfoTotalCount = 0 ∨
      (m.pendingFinalizedInfoTotalCount = m.pendingFinalizedInfoCurrentIndex ∧
        m.currentPendingMintsTracker.isEmpty = true) := by
  simp [isEmpty]

variable {info : Vector FinalizedBlockMintTxoInfo 8} {fuel : ℕ} {e : FinalizedBlockMintTxoInfo}
  {account : Vector UInt8 32} {height total groups : UInt32}

/-- The loop stops at the first entry that is not empty, or after `fuel` entries. -/
theorem skipEmpty_ok {i j : UInt16} (hi : i.toNat + fuel ≤ 8) :
    skipEmpty info fuel i = .ok j ↔
      i.toNat ≤ j.toNat ∧ j.toNat ≤ i.toNat + fuel ∧
      (∀ k e, i.toNat ≤ k → k < j.toNat → info[k]? = some e → e.isEmpty = true) ∧
      (j.toNat < i.toNat + fuel → ∃ e, info[j.toNat]? = some e ∧ e.isEmpty = false) := by
  induction fuel generalizing i with
  | zero =>
    simp only [skipEmpty, Except.ok.injEq]
    constructor
    · rintro rfl
      exact ⟨Nat.le_refl _, Nat.le_refl _, fun k e h₁ h₂ => absurd h₂ (Nat.not_lt.mpr h₁),
        fun h => absurd h (Nat.lt_irrefl _)⟩
    · rintro ⟨h₁, h₂, -⟩
      exact UInt16.toNat_inj.mp (Nat.le_antisymm h₁ h₂)
  | succ fuel ih =>
    have hlt : i.toNat < 8 := by omega
    have h1 : (1 : UInt16).toNat = 1 := rfl
    have hs : (i + 1).toNat = i.toNat + 1 := by rw [UInt16.toNat_add, h1]; omega
    have hget : info[i.toNat]? = some info[i.toNat] := Vector.getElem?_eq_getElem hlt
    simp only [skipEmpty, hget, orFail, bind, Except.bind]
    split
    · next he =>
      rw [ih (by omega), hs]
      constructor
      · rintro ⟨h₁, h₂, h₃, h₄⟩
        refine ⟨by omega, by omega, ?_, fun h => h₄ (by omega)⟩
        intro k e hk hkj hke
        by_cases hki : k = i.toNat
        · subst hki
          rw [hget] at hke
          cases hke
          exact he
        · exact h₃ k e (by omega) hkj hke
      · rintro ⟨h₁, h₂, h₃, h₄⟩
        have hne : i.toNat ≠ j.toNat := by
          intro h
          obtain ⟨e, hj, hf⟩ := h₄ (by omega)
          rw [← h, hget] at hj
          cases hj
          rw [he] at hf
          cases hf
        exact ⟨by omega, by omega, fun k e hk => h₃ k e (by omega), fun h => h₄ (by omega)⟩
    · next he =>
      simp only [Except.ok.injEq]
      have he : info[i.toNat].isEmpty = false := by simpa using he
      constructor
      · rintro rfl
        exact ⟨Nat.le_refl _, by omega, fun k e h₁ h₂ => absurd h₂ (Nat.not_lt.mpr h₁),
          fun _ => ⟨_, hget, he⟩⟩
      · rintro ⟨h₁, h₂, h₃, h₄⟩
        by_contra hne
        have hij : i.toNat < j.toNat :=
          Nat.lt_of_le_of_ne h₁ fun h => hne (UInt16.toNat_inj.mp h)
        have := h₃ i.toNat _ (Nat.le_refl _) hij hget
        rw [he] at this
        cases this

def skippedTo (m : FinalizedBlockMintTxoManager) (j : UInt16) : FinalizedBlockMintTxoManager :=
  if j = m.pendingFinalizedInfoCurrentIndex then m
  else { m with pendingFinalizedInfoCurrentIndex := j, currentPendingMintsTracker := .default }

theorem fastForwardEmpty_ok
    (hc : m.pendingFinalizedInfoCurrentIndex.toNat < m.pendingFinalizedInfoTotalCount.toNat)
    (h8 : m.pendingFinalizedInfoTotalCount.toNat ≤ 8)
    (ht : m.currentPendingMintsTracker.isEmpty = true) :
    m.fastForwardEmpty = .ok m' ↔
      ∃ j : UInt16, m.pendingFinalizedInfoCurrentIndex.toNat ≤ j.toNat ∧
      j.toNat ≤ m.pendingFinalizedInfoTotalCount.toNat ∧
      (∀ k e, m.pendingFinalizedInfoCurrentIndex.toNat ≤ k → k < j.toNat →
        m.pendingFinalizedInfo[k]? = some e → e.isEmpty = true) ∧
      (j.toNat < m.pendingFinalizedInfoTotalCount.toNat →
        ∃ e, m.pendingFinalizedInfo[j.toNat]? = some e ∧ e.isEmpty = false) ∧
      m' = m.skippedTo j := by
  have hne : ¬ m.isEmpty = true := by
    rw [isEmpty_iff]
    rintro (h | ⟨h, -⟩)
    · rw [h] at hc
      exact absurd hc (Nat.not_lt_zero _)
    · rw [h] at hc
      exact absurd hc (Nat.lt_irrefl _)
  have hge : ¬ m.pendingFinalizedInfoCurrentIndex ≥ m.pendingFinalizedInfoTotalCount := by
    rw [ge_iff_le, UInt16.le_iff_toNat_le]
    omega
  have hsum : m.pendingFinalizedInfoCurrentIndex.toNat + (m.pendingFinalizedInfoTotalCount.toNat -
      m.pendingFinalizedInfoCurrentIndex.toNat) = m.pendingFinalizedInfoTotalCount.toNat := by omega
  have hite (j : UInt16) : (if j = m.pendingFinalizedInfoCurrentIndex then pure m
      else pure { m with pendingFinalizedInfoCurrentIndex := j, currentPendingMintsTracker :=
        .default } : QDogeResult FinalizedBlockMintTxoManager) = .ok m' ↔ m' = m.skippedTo j := by
    unfold skippedTo
    split <;> rw [pure_ok, eq_comm]
  unfold fastForwardEmpty
  rw [if_neg (by simp [hge, ht, hne])]
  simp only [bind_ok, skipEmpty_ok (hsum.trans_le h8), hsum, hite, and_assoc]

theorem markPendingMintsGroupClaimed_ok {g : UInt16} {b : Bool} :
    m.markPendingMintsGroupClaimed g = .ok (m', b) ↔
      ∃ t, m.currentPendingMintsTracker.markPendingMintsGroupClaimed g = .ok (t, b) ∧
      m' = { m with
        currentPendingMintsTracker := t
        pendingFinalizedInfoCurrentIndex :=
          if b ∧ m.pendingFinalizedInfoCurrentIndex < m.pendingFinalizedInfoTotalCount then
            m.pendingFinalizedInfoCurrentIndex + 1
          else m.pendingFinalizedInfoCurrentIndex } := by
  simp only [markPendingMintsGroupClaimed, bind_ok, pure_ok, Prod.exists, Prod.mk.injEq]
  constructor
  · rintro ⟨t, b', ht, rfl, rfl⟩
    exact ⟨t, ht, rfl⟩
  · rintro ⟨t, ht, rfl⟩
    exact ⟨t, b, ht, rfl, rfl⟩

def opened (m : FinalizedBlockMintTxoManager) (height : UInt32)
    (groups : List FinalizedBlockMintTxoInfo) (account : Vector UInt8 32)
    (total groupsRemaining : UInt32) : FinalizedBlockMintTxoManager where
  pendingFinalizedInfo := Vector.ofFn fun i => groups.getD i (m.pendingFinalizedInfo.get i)
  pendingFinalizedInfoCurrentIndex := 0
  pendingFinalizedInfoTotalCount := UInt16.ofNat groups.length
  startBlockHeight := height
  currentPendingMintsTracker := ⟨account, zeroBytes, total, groupsRemaining⟩

theorem skipEmpty_zero_head (h : info[0].isEmpty = false) : skipEmpty info fuel 0 = .ok 0 := by
  cases fuel with
  | zero => rfl
  | succ fuel =>
    simp [skipEmpty, orFail, bind, Except.bind, h]

theorem ofNat_length_pos {n : ℕ} (h₀ : 0 < n) (h : n ≤ 8) : (UInt16.ofNat n).toNat = n :=
  UInt16.toNat_ofNat_of_lt' (by simp [UInt16.size]; omega)

theorem standardAppendBlock_cons {rest : List FinalizedBlockMintTxoInfo} (he : e.isEmpty = false) :
    m.standardAppendBlock height (e :: rest) account total groups = .ok m' ↔
      m.isEmpty = true ∧ (e :: rest).length ≤ 8 ∧
      m' = m.opened height (e :: rest) account total groups := by
  have hhead : (m.opened height (e :: rest) account 0 0).pendingFinalizedInfo[0].isEmpty =
      false := by
    simpa [opened] using he
  have hff : (e :: rest).length ≤ 8 →
      fastForwardEmpty (m.opened height (e :: rest) account 0 0) =
        .ok (m.opened height (e :: rest) account 0 0) := by
    intro hl
    unfold fastForwardEmpty
    split
    · rfl
    · have hz : (m.opened height (e :: rest) account 0 0).pendingFinalizedInfoCurrentIndex = 0 :=
        rfl
      simp [hz, skipEmpty_zero_head hhead, bind, Except.bind, pure, Except.pure]
  have hne : (e :: rest).length ≤ 8 → (m.opened height (e :: rest) account 0 0).isEmpty =
      false := by
    intro hl
    have hn := ofNat_length_pos (n := (e :: rest).length) (by simp) hl
    rw [Bool.eq_false_iff, Ne, isEmpty_iff]
    have h0 : UInt16.ofNat (e :: rest).length ≠ 0 := by
      intro h
      rw [h] at hn
      simp at hn
    rintro (h | ⟨h, -⟩) <;> exact h0 h
  simp only [standardAppendBlock, bind_ok, ensure_ok, exists_const, List.length_cons,
    Nat.add_eq_zero_iff, Nat.one_ne_zero, and_false, if_false]
  refine and_congr_right fun _ => and_congr_right fun hl => ?_
  change (∃ a, fastForwardEmpty (m.opened height (e :: rest) account 0 0) = .ok a ∧ _) ↔ _
  rw [hff hl]
  constructor
  · rintro ⟨m₁, h₁, h⟩
    cases h₁
    rw [if_neg (by simp [hne hl]), pure_ok] at h
    exact h.symm
  · rintro rfl
    refine ⟨_, rfl, ?_⟩
    rw [if_neg (by simp [hne hl]), pure_ok]
    rfl

theorem standardAppendBlock_single_empty (he : e.isEmpty = true) (ht : total ≠ 0) :
    m.standardAppendBlock height [e] account total groups ≠ .ok m' := by
  intro h
  simp only [standardAppendBlock, bind_ok, ensure_ok, exists_const, List.length_singleton,
    Nat.one_ne_zero, if_false] at h
  obtain ⟨-, -, m₁, h₁, h⟩ := h
  obtain ⟨j, -, hj₁, -, hj, rfl⟩ := (fastForwardEmpty_ok (m := m.opened height [e] account 0 0)
    (show (0 : ℕ) < 1 by decide) (show (1 : ℕ) ≤ 8 by decide) rfl).mp h₁
  have hj₁ : j.toNat ≤ 1 := hj₁
  have hj1 : j = 1 := by
    apply UInt16.toNat_inj.mp
    by_contra hne
    have h0 : j.toNat = 0 := by
      have : (1 : UInt16).toNat = 1 := rfl
      omega
    obtain ⟨e', hget, hf⟩ := hj (show j.toNat < 1 by omega)
    have hz : (m.opened height [e] account 0 0).pendingFinalizedInfo[0]? = some e := by
      simp [opened]
    rw [h0, hz] at hget
    cases hget
    rw [he] at hf
    cases hf
  subst hj1
  have hempty : ((m.opened height [e] account 0 0).skippedTo 1).isEmpty = true :=
    isEmpty_iff.mpr (.inr ⟨rfl, rfl⟩)
  rw [if_pos hempty] at h
  simp [ht] at h

end Backlog

end FinalizedBlockMintTxoManager

end MintGroups
