import PsyDogeBridge.ProgramState

/-! Block updates, reorganisations and the claiming of mint groups, as operations on the bridge
state that read the mint buffer and the output buffer. -/
namespace BlockTransition

open PodLayout CheckedSteps BridgeData MintGroups ProgramState

def COMPACT_BRIDGE_ZK_PROOF_SIZE : ℕ := 256
def COMPACT_BRIDGE_ZK_VERIFIER_KEY_SIZE : ℕ := 32

def computeMintGroupInfo (totalMints : UInt16) : UInt16 × UInt16 :=
  if totalMints = 0 then (0, 0)
  else
    let rem := totalMints % PM_MAX_PENDING_MINTS_PER_GROUP_U16
    if rem = 0 then
      (totalMints / PM_MAX_PENDING_MINTS_PER_GROUP_U16, PM_MAX_PENDING_MINTS_PER_GROUP_U16)
    else (totalMints / PM_MAX_PENDING_MINTS_PER_GROUP_U16 + 1, rem)

def getBacklogContainsPendingMints (pendingBacklog : List FinalizedBlockMintTxoInfo) :
    Option ℕ :=
  pendingBacklog.findIdx? fun item => !item.isEmpty

def hashPreimageSlice (mem : Bytes) (mintGroups : UInt16) : Bytes :=
  slice mem 70 (mintGroups.toNat * 32 + 72 - 70)

def txoSlice (mem : Bytes) (count : UInt16) : Bytes :=
  slice mem PM_TXO_BUFFER_HEADER_SIZE (pmTxoDataAccountMinSize count - PM_TXO_BUFFER_HEADER_SIZE)

def getNthPendingMintOffset (pendingMintGroupsCount globalMintIdx : UInt16) : ℕ :=
  PM_DA_PENDING_MINTS_BUFFER_STATE_HEADER_SIZE + pendingMintGroupsCount.toNat * 32 +
    globalMintIdx.toNat * PM_DA_PENDING_MINT_SIZE

section Checks

variable (c : Crypto)

/-- Returns the hash of the buffer and its count of mints. -/
def ensurePendingMintsReadyForTransitionInner (selfBridgeProgramPubKey : Vector UInt8 32)
    (expectedPendingMintsBufferHash : QHash256) (mem : Bytes) :
    QDogeResult (QHash256 × UInt16) := do
  ensure (PM_DA_PENDING_MINTS_BUFFER_STATE_HEADER_SIZE ≤ mem.length)
    (coreError .invalidAutoClaimMintBufferDataAccountSize)
  let header := mintBufferHeader mem
  ensure (header.authorizedLockerPublicKey = selfBridgeProgramPubKey)
    (coreError .invalidMintBufferLockingPermission)
  let pendingMintsCount := header.pendingMintsCount
  let mintGroups := (computeMintGroupInfo pendingMintsCount).1
  ensure (header.pendingMintGroupsCount = mintGroups)
    (coreError .invalidMintBufferPendingMintGroupsCount)
  ensure (¬ (pendingMintsCount ≥ 65535 ∨ header.pendingMintsCount ≠ pendingMintsCount))
    (coreError .invalidMintBufferPendingMintsCount)
  ensure (pmCalculateDataAccountMinSize pendingMintsCount ≤ mem.length)
    (coreError .invalidAutoClaimMintBufferDataAccountSize)
  let pendingMintsBufferHash := c.sha256 (hashPreimageSlice mem mintGroups)
  ensure (expectedPendingMintsBufferHash = pendingMintsBufferHash)
    (coreError .invalidPendingMintsBufferHash)
  pure (pendingMintsBufferHash, pendingMintsCount)

/-- Returns the hash of the buffer and whether there are mints. -/
def ensurePendingMintsReadyForTransition (pendingMintsCount : UInt16)
    (selfBridgeProgramPubKey : Vector UInt8 32) (expectedPendingMintsBufferHash : QHash256)
    (mem : Bytes) : QDogeResult (QHash256 × Bool) := do
  if pendingMintsCount = 0 then pure (PM_DA_DEFAULT_PENDING_MINTS_BUFFER_HASH, false)
  else
    let (pendingMintsBufferHash, actualPendingMintsCount) ←
      ensurePendingMintsReadyForTransitionInner c selfBridgeProgramPubKey
        expectedPendingMintsBufferHash mem
    ensure (actualPendingMintsCount = pendingMintsCount)
      (coreError .invalidPendingMintsCountForTransition)
    pure (pendingMintsBufferHash, decide (pendingMintsCount > 0))

end Checks

section Transitions

variable (c : Crypto) (s : PsyBridgeProgramState)

/-- The output buffer must be long enough, belong to the block at `height` and have the hash
`expected`. Returns the hash. -/
def ensureTxoBufferMatches (mem : Bytes) (count : UInt16) (height : UInt32) (expected : QHash256)
    (wrongHeight : DogeBridgeError) : QDogeResult QHash256 := do
  ensure (pmTxoDataAccountMinSize count ≤ mem.length)
    (coreError .invalidAutoClaimTxoBufferDataAccountSize)
  ensure ((txoBufferHeader mem).dogeBlockHeight = height) (coreError wrongHeight)
  let txoHash := c.sha256 (txoSlice mem count)
  ensure (txoHash = expected) (coreError .invalidAutoClaimTxoBufferHash)
  pure txoHash

def appendNewAutoMints (newHeader : PsyBridgeHeader) (pendingMintsBufferHash : QHash256)
    (hasNewAutoMints : Bool) (totalNewAutoClaims : UInt16)
    (mintBufferStorageAccountPubKey : Vector UInt8 32) (txoMem : Bytes) :
    QDogeResult FinalizedBlockMintTxoManager :=
  if hasNewAutoMints then do
    ensure (pmTxoDataAccountMinSize totalNewAutoClaims ≤ txoMem.length)
      (coreError .invalidAutoClaimTxoBufferDataAccountSize)
    let txoHeader := txoBufferHeader txoMem
    ensure (¬ (txoHeader.dogeBlockHeight ≠ newHeader.finalizedState.blockHeight ∨
        txoHeader.dataSize = 0))
      (coreError .invalidAutoClaimTxoBufferPendingMintsCount)
    let txoHash := c.sha256 (txoSlice txoMem totalNewAutoClaims)
    ensure (txoHash = newHeader.finalizedState.txoOutputListFinalizedHash)
      (coreError .invalidAutoClaimTxoBufferHash)
    let mintGroups := (computeMintGroupInfo totalNewAutoClaims).1
    s.pendingMintTxos.standardAppendBlock newHeader.finalizedState.blockHeight
      [⟨pendingMintsBufferHash, txoHash⟩] mintBufferStorageAccountPubKey
      totalNewAutoClaims.toUInt32 mintGroups.toUInt32
  else pure s.pendingMintTxos

/-- The ring of recent blocks is indexed without a check. -/
def setRecentFinalizedBlock (b : PsyBridgeStateCommitment) :
    QDogeResult (Vector PsyBridgeStateCommitment 8) :=
  if h : s.nextRecentFinalizedBlockIndex.toNat < 8 then
    pure (s.recentFinalizedBlocks.set s.nextRecentFinalizedBlockIndex.toNat b)
  else .error .panic

def runStandardSingleBlockTransition (proof vk : Bytes) (newHeader : PsyBridgeHeader)
    (selfBridgeProgramPubKey mintBufferStorageAccountPubKey : Vector UInt8 32)
    (txoMem mintMem : Bytes) : QDogeResult PsyBridgeProgramState := do
  ensure s.isReadyForNewBlockUpdate (coreError .programStateNotReadyForBlockUpdate)
  ensure (proof.length = COMPACT_BRIDGE_ZK_PROOF_SIZE) (coreError .invalidZKProofSize)
  ensure (vk.length = COMPACT_BRIDGE_ZK_VERIFIER_KEY_SIZE) (coreError .invalidZKVerifierKeySize)
  ensure (newHeader.finalizedState.blockHeight = s.bridgeHeader.finalizedState.blockHeight + 1)
    (coreError .invalidBlockHeightForSingleBlockTransition)
  ensure (¬ newHeader.tipState.blockHeight ≤ s.bridgeHeader.tipState.blockHeight)
    (coreError .invalidBlockHeightForSingleBlockTransition)
  ensure (¬ newHeader.finalizedState.autoClaimedDepositsNextIndex <
      s.bridgeHeader.finalizedState.autoClaimedDepositsNextIndex)
    (coreError .invalidAutoClaimedDepositsNextIndex)
  let totalNewAutoClaims := newHeader.finalizedState.autoClaimedDepositsNextIndex -
    s.bridgeHeader.finalizedState.autoClaimedDepositsNextIndex
  ensure (¬ totalNewAutoClaims > 65535) (coreError .tooManyNewAutoClaimedDeposits)
  let totalNewAutoClaims := totalNewAutoClaims.toUInt16
  let expectedZkpPublicInputs := getBlockTransitionPublicInputs c
    (s.bridgeHeader.getHashCanonical c) (newHeader.getHashCanonical c) (s.configParams.getHash c)
    s.custodianWalletConfigHash
  ensure (c.verifyCompactZkpSlice proof vk expectedZkpPublicInputs.toList)
    (coreError .invalidBridgeInputZKP)
  let (pendingMintsBufferHash, hasNewAutoMints) ←
    ensurePendingMintsReadyForTransition c totalNewAutoClaims selfBridgeProgramPubKey
      newHeader.finalizedState.pendingMintsFinalizedHash mintMem
  ensure (pendingMintsBufferHash = newHeader.finalizedState.pendingMintsFinalizedHash)
    (coreError .invalidPendingMintsBufferHash)
  let pendingMintTxos ← appendNewAutoMints c s newHeader pendingMintsBufferHash hasNewAutoMints
    totalNewAutoClaims mintBufferStorageAccountPubKey txoMem
  let recentFinalizedBlocks ← setRecentFinalizedBlock s newHeader.finalizedState
  pure { s with
    pendingMintTxos := pendingMintTxos
    bridgeHeader := newHeader
    recentFinalizedBlocks := recentFinalizedBlocks
    nextRecentFinalizedBlockIndex := (s.nextRecentFinalizedBlockIndex + 1) % 8 }

def appendBacklog (newHeader : PsyBridgeHeader) (newItems : List FinalizedBlockMintTxoInfo)
    (selfBridgeProgramPubKey mintBufferLockerAccountPubkey : Vector UInt8 32)
    (txoMem mintMem : Bytes) : QDogeResult FinalizedBlockMintTxoManager :=
  match getBacklogContainsPendingMints newItems with
  | none => pure s.pendingMintTxos
  | some first => do
    let item := newItems.getD first .default
    let (pendingMintsBufferHash, pendingMintsCount) ←
      ensurePendingMintsReadyForTransitionInner c selfBridgeProgramPubKey
        item.pendingMintsFinalizedHash mintMem
    ensure (pendingMintsBufferHash = item.pendingMintsFinalizedHash)
      (coreError .invalidPendingMintsBufferHash)
    let firstBlockHeightInBacklog := newHeader.finalizedState.blockHeight -
      (UInt32.ofNat newItems.length - UInt32.ofNat first - 1)
    let _ ← ensureTxoBufferMatches c txoMem pendingMintsCount firstBlockHeightInBacklog
      item.txoOutputListFinalizedHash .invalidAutoClaimTxoBufferPendingMintsCount
    let mintGroups := (computeMintGroupInfo pendingMintsCount).1
    s.pendingMintTxos.standardAppendBlock firstBlockHeightInBacklog (newItems.drop first)
      mintBufferLockerAccountPubkey pendingMintsCount.toUInt32 mintGroups.toUInt32

def runBlockTransitionReorg (proof vk : Bytes) (newHeader : PsyBridgeHeader)
    (extraFinalizedBlocks : List FinalizedBlockMintTxoInfo)
    (selfBridgeProgramPubKey mintBufferLockerAccountPubkey : Vector UInt8 32)
    (txoMem mintMem : Bytes) : QDogeResult PsyBridgeProgramState := do
  ensure s.isReadyForNewBlockUpdate (coreError .programStateNotReadyForBlockUpdate)
  ensure (proof.length = COMPACT_BRIDGE_ZK_PROOF_SIZE) (coreError .invalidZKProofSize)
  ensure (vk.length = COMPACT_BRIDGE_ZK_VERIFIER_KEY_SIZE) (coreError .invalidZKVerifierKeySize)
  ensure (¬ newHeader.finalizedState.blockHeight ≤ s.bridgeHeader.finalizedState.blockHeight)
    (coreError .invalidBlockHeightForSingleBlockTransition)
  ensure (¬ newHeader.tipState.blockHeight ≤ s.bridgeHeader.tipState.blockHeight)
    (coreError .invalidBlockHeightForSingleBlockTransition)
  let fastForwardSize := newHeader.finalizedState.blockHeight -
    s.bridgeHeader.finalizedState.blockHeight
  ensure (extraFinalizedBlocks.length = (fastForwardSize - 1).toNat)
    (coreError .invalidExtraFinalizedBlocksLengthForReorg)
  ensure (fastForwardSize - 1 = UInt32.ofNat extraFinalizedBlocks.length)
    (coreError .invalidExtraFinalizedBlocksLengthForReorg)
  ensure (¬ newHeader.finalizedState.autoClaimedDepositsNextIndex <
      s.bridgeHeader.finalizedState.autoClaimedDepositsNextIndex)
    (coreError .invalidAutoClaimedDepositsNextIndex)
  let expectedZkpPublicInputs := getReorgBlockTransitionPublicInputs c
    (s.bridgeHeader.getHashCanonical c) (newHeader.getHashCanonical c) extraFinalizedBlocks
    (s.configParams.getHash c) s.custodianWalletConfigHash
  ensure (c.verifyCompactZkpSlice proof vk expectedZkpPublicInputs.toList)
    (coreError .invalidBridgeInputZKP)
  let lastBlockInfo : FinalizedBlockMintTxoInfo :=
    ⟨newHeader.finalizedState.pendingMintsFinalizedHash,
      newHeader.finalizedState.txoOutputListFinalizedHash⟩
  let pendingMintTxos ← appendBacklog c s newHeader (extraFinalizedBlocks ++ [lastBlockInfo])
    selfBridgeProgramPubKey mintBufferLockerAccountPubkey txoMem mintMem
  pure { s with pendingMintTxos := pendingMintTxos, bridgeHeader := newHeader }

/-- What `run_auto_mint_group_precheck` reports: whether this was the last group, how many
records the group has and where the first one is. -/
structure GroupClaim where
  canUnlock : Bool
  mintsCount : UInt16
  startOffset : ℕ

def mintsCountForGroup (t : PendingMintsTracker) (mintGroupIndex : UInt16) : UInt16 :=
  if mintGroupIndex = t.getCurrentTotalPendingMintsGroups - 1 then
    let rem := t.totalPendingMints.toUInt16 % PM_MAX_PENDING_MINTS_PER_GROUP_U16
    if rem = 0 then PM_MAX_PENDING_MINTS_PER_GROUP_U16 else rem
  else PM_MAX_PENDING_MINTS_PER_GROUP_U16

def runAutoMintGroupPrecheck (mintGroupIndex : UInt16)
    (pendingMintsBufferPubkey : Vector UInt8 32) :
    QDogeResult (PsyBridgeProgramState × GroupClaim) := do
  ensure (¬ s.pendingMintTxos.isEmpty) (coreError .noPendingMintsToAutoProcess)
  let tracker := s.pendingMintTxos.currentPendingMintsTracker
  let totalGroups := tracker.getCurrentTotalPendingMintsGroups
  ensure (totalGroups ≠ 0) (coreError .noPendingMintsToAutoProcess)
  ensure (¬ tracker.isEmpty) (coreError .noPendingMintsToAutoProcess)
  tracker.ensureCanClaimPendingMintsGroup mintGroupIndex
  let mintsCount := mintsCountForGroup tracker mintGroupIndex
  let startOffset := getNthPendingMintOffset totalGroups
    (mintGroupIndex * PM_MAX_PENDING_MINTS_PER_GROUP_U16)
  ensure (pendingMintsBufferPubkey = tracker.lastFinalizedAutoClaimMintsStorageAccount)
    (coreError .invalidAccountKey)
  let (pendingMintTxos, canUnlock) ←
    s.pendingMintTxos.markPendingMintsGroupClaimed mintGroupIndex
  pure ({ s with pendingMintTxos := pendingMintTxos }, ⟨canUnlock, mintsCount, startOffset⟩)

def runSetupNextPendingBuffer (selfBridgeProgramPubKey mintBufferPublicKey : Vector UInt8 32)
    (txoMem mintMem : Bytes) : QDogeResult PsyBridgeProgramState := do
  ensure (¬ (s.isReadyForNewBlockUpdate ∨ s.pendingMintTxos.isEmpty))
    (coreError .noPendingMintsToAutoProcess)
  ensure s.pendingMintTxos.currentPendingMintsTracker.isEmpty
    (coreError .remainingPendingMintsInPreviousState)
  s.pendingMintTxos.ensureReadyToStartNextPendingFinalizedInfo
  let m ← s.pendingMintTxos.fastForwardEmpty
  ensure (¬ (m.isEmpty ∨ m.isEmpty)) (coreError .noPendingMintsToAutoProcess)
  ensure m.currentPendingMintsTracker.isEmpty (coreError .remainingPendingMintsInPreviousState)
  m.ensureReadyToStartNextPendingFinalizedInfo
  let entry ← orFail m.pendingFinalizedInfo[m.pendingFinalizedInfoCurrentIndex.toNat]? .panic
  let (pendingMintsBufferHash, pendingMintsCount) ←
    ensurePendingMintsReadyForTransitionInner c selfBridgeProgramPubKey
      entry.pendingMintsFinalizedHash mintMem
  let _ ← ensureTxoBufferMatches c txoMem pendingMintsCount
    (m.startBlockHeight + m.pendingFinalizedInfoCurrentIndex.toUInt32)
    entry.txoOutputListFinalizedHash .invalidBlockHeightForReorgTransition
  ensure (entry.pendingMintsFinalizedHash = pendingMintsBufferHash)
    (coreError .invalidPendingMintsBufferHash)
  let mintGroups := (computeMintGroupInfo pendingMintsCount).1
  pure { s with pendingMintTxos :=
    { m with currentPendingMintsTracker :=
      { lastFinalizedAutoClaimMintsStorageAccount := mintBufferPublicKey
        pendingMintGroupsClaimed := zeroBytes
        totalPendingMints := pendingMintsCount.toUInt32
        pendingMintsGroupsRemaining := mintGroups.toUInt32 } } }

end Transitions

end BlockTransition
