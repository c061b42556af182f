import PsyDogeBridge.AppendTree
import PsyDogeBridge.MintGroups

/-! The state of the bridge, its fees and the operations on it other than block transitions. -/
namespace ProgramState

open PodLayout CheckedSteps BridgeData AppendTree MintGroups

def INVALID_BLOCK_HEIGHT : UInt32 := 0xFFFFFFFF
def MIN_WAIT_TIME_REPLAY_WITHDRAWAL_SECS : UInt32 := 60

structure PsyBridgeProgramState where
  bridgeHeader : PsyBridgeHeader
  recentFinalizedBlocks : Vector PsyBridgeStateCommitment 8
  lastReturnOutput : PsyReturnTxOutput
  pendingMintTxos : FinalizedBlockMintTxoManager
  spentTxoTreeRoot : QHash256
  withdrawalSnapshot : PsyWithdrawalChainSnapshot
  nextProcessedWithdrawalsIndex : UInt64
  sentTransactionsTree : FixedMerkleAppendTree
  manualDepositsTree : FixedMerkleAppendTree
  requestedWithdrawalsTree : FixedMerkleAppendTree
  custodianWalletConfigHash : QHash256
  bridgeControlMode : UInt32
  nextRecentFinalizedBlockIndex : UInt32
  lastProcessedWithdrawalsAtMs : UInt64
  totalRequestedWithdrawalsSats : UInt64
  totalFeesWithdrawnSats : UInt64
  totalManualDepositFeesSats : UInt64
  totalWithdrawalFeesSats : UInt64
  lastReceivedBlockAtMs : UInt64
  lastReplayedWithdrawalAtMs : UInt64
  configParams : PsyBridgeConfig
  accessControl : PsyBridgeAccessControlHeader
  deriving DecidableEq

def PsyBridgeProgramState.pod : Pod PsyBridgeProgramState :=
  (PsyBridgeHeader.pod.prod ((PsyBridgeStateCommitment.pod.array 8).prod
    (PsyReturnTxOutput.pod.prod (FinalizedBlockMintTxoManager.pod.prod (hashPod.prod
    (PsyWithdrawalChainSnapshot.pod.prod (Pod.u64.prod (FixedMerkleAppendTree.pod.prod
    (FixedMerkleAppendTree.pod.prod (FixedMerkleAppendTree.pod.prod (hashPod.prod
    (Pod.u32.prod (Pod.u32.prod (Pod.u64.prod (Pod.u64.prod (Pod.u64.prod (Pod.u64.prod
    (Pod.u64.prod (Pod.u64.prod (Pod.u64.prod (PsyBridgeConfig.pod.prod
    PsyBridgeAccessControlHeader.pod))))))))))))))))))))).record
  { toFun s := (s.bridgeHeader, s.recentFinalizedBlocks, s.lastReturnOutput, s.pendingMintTxos,
      s.spentTxoTreeRoot, s.withdrawalSnapshot, s.nextProcessedWithdrawalsIndex,
      s.sentTransactionsTree, s.manualDepositsTree, s.requestedWithdrawalsTree,
      s.custodianWalletConfigHash, s.bridgeControlMode, s.nextRecentFinalizedBlockIndex,
      s.lastProcessedWithdrawalsAtMs, s.totalRequestedWithdrawalsSats, s.totalFeesWithdrawnSats,
      s.totalManualDepositFeesSats, s.totalWithdrawalFeesSats, s.lastReceivedBlockAtMs,
      s.lastReplayedWithdrawalAtMs, s.configParams, s.accessControl)
    invFun := fun (a, b, c, d, e, f, g, h, i, j, k, l, m, n, o, p, q, r, s, t, u, v) =>
      ⟨a, b, c, d, e, f, g, h, i, j, k, l, m, n, o, p, q, r, s, t, u, v⟩
    left_inv _ := rfl
    right_inv _ := rfl }

structure BridgeProgramStateWithDogeMint where
  coreState : PsyBridgeProgramState
  dogeMint : Vector UInt8 32
  deriving DecidableEq

abbrev BridgeState := BridgeProgramStateWithDogeMint

def BridgeState.pod : Pod BridgeState :=
  (PsyBridgeProgramState.pod.prod hashPod).record
  { toFun s := (s.coreState, s.dogeMint)
    invFun := fun (a, b) => ⟨a, b⟩
    left_inv _ := rfl
    right_inv _ := rfl }

@[simp] theorem BridgeState.pod_size : BridgeState.pod.size = 6184 := rfl

structure InitializeBridgeInstructionData where
  operatorPubkey : Vector UInt8 32
  feeSpenderPubkey : Vector UInt8 32
  dogeMint : Vector UInt8 32
  bridgeHeader : PsyBridgeHeader
  startReturnTxoOutput : PsyReturnTxOutput
  configParams : PsyBridgeConfig
  custodianWalletConfigHash : QHash256
  deriving DecidableEq

def InitializeBridgeInstructionData.pod : Pod InitializeBridgeInstructionData :=
  (hashPod.prod (hashPod.prod (hashPod.prod (PsyBridgeHeader.pod.prod (PsyReturnTxOutput.pod.prod
    (PsyBridgeConfig.pod.prod hashPod)))))).record
  { toFun i := (i.operatorPubkey, i.feeSpenderPubkey, i.dogeMint, i.bridgeHeader,
      i.startReturnTxoOutput, i.configParams, i.custodianWalletConfigHash)
    invFun := fun (a, b, c, d, e, f, g) => ⟨a, b, c, d, e, f, g⟩
    left_inv _ := rfl
    right_inv _ := rfl }

structure FeeResult where
  feesGenerated : UInt64
  amountAfterFees : UInt64
  deriving DecidableEq

/-- A `u128` operation that does not overflow. -/
def checked128 (n : ℕ) : Option ℕ := if n < 2 ^ 128 then some n else none

def checkedDiv (n d : ℕ) : Option ℕ := if d = 0 then none else some (n / d)

/-- The computation is in `u128`; only the sum is cut down to 64 bits, without a check. -/
def calcuateFee (total flatFee numerator denominator : UInt64) : Option FeeResult := do
  let product ← checked128 (total.toNat * numerator.toNat)
  let quotient ← checkedDiv product denominator.toNat
  let sum ← checked128 (quotient + flatFee.toNat)
  let feesGenerated := UInt64.ofNat sum
  if feesGenerated ≤ total then some ⟨feesGenerated, total - feesGenerated⟩ else none

def calcuateDepositFee : UInt64 → UInt64 → UInt64 → UInt64 → Option FeeResult := calcuateFee
def calcuateWithdrawalFee : UInt64 → UInt64 → UInt64 → UInt64 → Option FeeResult := calcuateFee

theorem calcuateFee_add {total flat num den : UInt64} {r : FeeResult}
    (h : calcuateFee total flat num den = some r) :
    r.amountAfterFees.toNat + r.feesGenerated.toNat = total.toNat := by
  simp only [calcuateFee, Option.bind_eq_bind, Option.bind_eq_some_iff,
    Option.ite_none_right_eq_some, Option.some.injEq] at h
  obtain ⟨product, -, quotient, -, sum, -, hle, rfl⟩ := h
  change (total - UInt64.ofNat sum).toNat + (UInt64.ofNat sum).toNat = total.toNat
  rw [UInt64.toNat_sub_of_le _ _ hle]
  exact Nat.sub_add_cancel (UInt64.le_iff_toNat_le.mp hle)

theorem calcuateFee_den {total flat num den : UInt64} {r : FeeResult}
    (h : calcuateFee total flat num den = some r) : den ≠ 0 := by
  rintro rfl
  simp [calcuateFee, checkedDiv] at h

section PublicInputs

variable (c : Crypto)

def getWithdrawalProofPublicInputs (snapshotHash oldReturnOutputHash newReturnOutputHash
    oldSpentTxoTreeRoot newSpentTxoTreeRoot custodianWalletConfigHash : QHash256)
    (newNextProcessedWithdrawalsIndex : UInt64) : QHash256 :=
  let returnOutputHashTransition := hashTwoToOne c oldReturnOutputHash newReturnOutputHash
  let spentTxoTreeRootTransition := hashTwoToOne c oldSpentTxoTreeRoot newSpentTxoTreeRoot
  hashv c [snapshotHash.toList, returnOutputHashTransition.toList,
    spentTxoTreeRootTransition.toList, Pod.u64.encode newNextProcessedWithdrawalsIndex,
    custodianWalletConfigHash.toList]

def getBlockTransitionPublicInputs (previousHeaderHash newHeaderHash configParamsHash
    custodianWalletConfigHash : QHash256) : QHash256 :=
  let transitionHash := hashTwoToOne c previousHeaderHash newHeaderHash
  hashv c [transitionHash.toList, configParamsHash.toList, custodianWalletConfigHash.toList]

def computeBacklogHash (backlogTxoMints : List FinalizedBlockMintTxoInfo) : QHash256 :=
  backlogTxoMints.foldl (fun currentHash mintInfo =>
    hashTwoToOne c currentHash
      (hashTwoToOne c mintInfo.pendingMintsFinalizedHash mintInfo.txoOutputListFinalizedHash))
    zeroBytes

def getReorgBlockTransitionPublicInputs (previousHeaderHash newHeaderHash : QHash256)
    (backlogTxoMints : List FinalizedBlockMintTxoInfo)
    (configParamsHash custodianWalletConfigHash : QHash256) : QHash256 :=
  let backlogHash := computeBacklogHash c backlogTxoMints
  let transitionHash := hashTwoToOne c previousHeaderHash newHeaderHash
  let transitionAndBacklogHash := hashTwoToOne c transitionHash backlogHash
  hashv c [transitionAndBacklogHash.toList, configParamsHash.toList,
    custodianWalletConfigHash.toList]

def getManualDepositProofPublicInputs (recentBlockMerkleTreeRoot recentAutoClaimTxoRoot
    oldManualClaimDepositTxoRoot newManualClaimTxoRoot txHash userAta
    custodianWalletConfigHash : QHash256) (combinedTxoIndex depositAmountSats : UInt64) :
    QHash256 :=
  let recentInfo := hashTwoToOne c recentBlockMerkleTreeRoot recentAutoClaimTxoRoot
  let manualClaimDepositTxoTransition :=
    hashTwoToOne c oldManualClaimDepositTxoRoot newManualClaimTxoRoot
  let recentInfoWithUserTxoRoot := hashTwoToOne c recentInfo manualClaimDepositTxoTransition
  let txInfo := hashv c [txHash.toList, userAta.toList, Pod.u64.encode combinedTxoIndex,
    Pod.u64.encode depositAmountSats]
  hashv c [recentInfoWithUserTxoRoot.toList, txInfo.toList, custodianWalletConfigHash.toList]

def hashDepositLeaf (txHash : QHash256) (txoCombinedIndex : UInt64) (depositorAta : QHash256)
    (amount : UInt64) : QHash256 :=
  hashv c [txHash.toList, depositorAta.toList, Pod.u64.encode txoCombinedIndex,
    Pod.u64.encode amount]

end PublicInputs

/-- The block number of a combined output index: 28 bits above 13 and 12. -/
def txoBlockNumber (index : UInt64) : UInt32 :=
  ((index >>> (13 + 12)) &&& ((1 : UInt64) <<< 28 - 1)).toUInt32

namespace PsyBridgeProgramState

variable (c : Crypto) (s : PsyBridgeProgramState)

def initialized (i : InitializeBridgeInstructionData) : PsyBridgeProgramState where
  bridgeHeader := i.bridgeHeader
  recentFinalizedBlocks := Vector.replicate 8 i.bridgeHeader.finalizedState
  lastReturnOutput := i.startReturnTxoOutput
  pendingMintTxos := .default
  spentTxoTreeRoot := zeroHash TXO_MERKLE_INDEX_TOTAL_BITS
  withdrawalSnapshot := .default
  nextProcessedWithdrawalsIndex := 0
  sentTransactionsTree := .newEmpty
  manualDepositsTree := .newEmpty
  requestedWithdrawalsTree := .newEmpty
  custodianWalletConfigHash := i.custodianWalletConfigHash
  bridgeControlMode := 0
  nextRecentFinalizedBlockIndex := 0
  lastProcessedWithdrawalsAtMs := 0
  totalRequestedWithdrawalsSats := 0
  totalFeesWithdrawnSats := 0
  totalManualDepositFeesSats := 0
  totalWithdrawalFeesSats := 0
  lastReceivedBlockAtMs := 0
  lastReplayedWithdrawalAtMs := 0
  configParams := i.configParams
  accessControl := ⟨i.operatorPubkey, i.feeSpenderPubkey⟩

def getTotalFinalizedFees : UInt64 :=
  s.totalManualDepositFeesSats + s.totalWithdrawalFeesSats +
    s.bridgeHeader.totalFinalizedFeesCollectedChainHistory

abbrev tracker : PendingMintsTracker := s.pendingMintTxos.currentPendingMintsTracker

def isReadyForNewBlockUpdate : Bool := s.pendingMintTxos.isEmpty

def snapshotForWithdrawal (currentUnixTimestampSecs : UInt32) : PsyBridgeProgramState :=
  { s with withdrawalSnapshot :=
    { autoClaimedDepositsTreeRoot := s.bridgeHeader.finalizedState.autoClaimedDepositsTreeRoot
      requestedWithdrawalsTreeRoot := s.requestedWithdrawalsTree.getRoot
      manualDepositsTreeRoot := s.manualDepositsTree.getRoot
      blockMerkleTreeRoot := s.bridgeHeader.finalizedState.blockMerkleTreeRoot
      blockHeight := s.bridgeHeader.finalizedState.blockHeight
      lastSnapshottedForWithdrawalsSeconds := currentUnixTimestampSecs
      nextRequestedWithdrawalsTreeIndex := s.requestedWithdrawalsTree.nextIndex
      nextManualDepositsTreeIndex := s.manualDepositsTree.nextIndex } }

def getExpectedPublicInputsForWithdrawalProof (newReturnOutput : PsyReturnTxOutput)
    (newSpentTxoTreeRoot : QHash256) (newNextProcessedWithdrawalsIndex : UInt64) : QHash256 :=
  getWithdrawalProofPublicInputs c (s.withdrawalSnapshot.getHash c) (s.lastReturnOutput.getHash c)
    (newReturnOutput.getHash c) s.spentTxoTreeRoot newSpentTxoTreeRoot
    s.custodianWalletConfigHash newNextProcessedWithdrawalsIndex

/-- `none` is the source's `false`: no fee, nothing left after it, or a fee that cannot be
computed. -/
def processRequestWithdrawal (addressType : UInt32) (address : Vector UInt8 20)
    (amountBurnedSats : UInt64) : Option PsyBridgeProgramState :=
  let feeResult := (calcuateWithdrawalFee amountBurnedSats s.configParams.withdrawalFlatFeeSats
    s.configParams.withdrawalFeeRateNumerator
    s.configParams.withdrawalFeeRateDenominator).getD ⟨0, 0⟩
  if feeResult.feesGenerated = 0 ∨ feeResult.amountAfterFees = 0 then none
  else some { s with
    totalWithdrawalFeesSats := s.totalWithdrawalFeesSats + feeResult.feesGenerated
    requestedWithdrawalsTree := s.requestedWithdrawalsTree.append c
      (PsyWithdrawalRequest.toLeaf ⟨feeResult.amountAfterFees, addressType, address⟩)
    totalRequestedWithdrawalsSats := s.totalRequestedWithdrawalsSats + amountBurnedSats }

def updateForWithdrawal (newReturnOutput : PsyReturnTxOutput) (newSpentTxoTreeRoot : QHash256)
    (newNextProcessedWithdrawalsIndex : UInt64) : PsyBridgeProgramState :=
  { s with
    lastReturnOutput := newReturnOutput
    spentTxoTreeRoot := newSpentTxoTreeRoot
    nextProcessedWithdrawalsIndex := newNextProcessedWithdrawalsIndex
    sentTransactionsTree := s.sentTransactionsTree.append c newReturnOutput.sighash }

def runProcessBridgeWithdrawal (proof vk dogecoinTx : Bytes) (newReturnOutput : PsyReturnTxOutput)
    (newSpentTxoTreeRoot : QHash256) (newNextProcessedWithdrawalsIndex : UInt64) :
    QDogeResult (PsyBridgeProgramState × QHash256) := do
  let dogeTxHash := c.sha256 dogecoinTx
  ensure (dogeTxHash = newReturnOutput.sighash) (coreError .invalidDogeTxHash)
  let expectedPublicInputs := s.getExpectedPublicInputsForWithdrawalProof c newReturnOutput
    newSpentTxoTreeRoot newNextProcessedWithdrawalsIndex
  ensure (c.verifyCompactZkpSlice proof vk expectedPublicInputs.toList) (coreError .bridgeZKPError)
  pure (s.updateForWithdrawal c newReturnOutput newSpentTxoTreeRoot
    newNextProcessedWithdrawalsIndex, dogeTxHash)

/-- `ok none` is the source's `false`; the root computation may also panic. -/
def processReplayWithdrawalProof (proof : FixedMerkleAppendTreePartialMerkleProof)
    (currentUnixTimestampSecs : UInt32) : QDogeResult (Option PsyBridgeProgramState) := do
  let proofRoot ← orFail (proof.computeRootSha256 c) .panic
  if proofRoot ≠ s.sentTransactionsTree.getRoot then pure none
  else if s.lastProcessedWithdrawalsAtMs / 1000 + MIN_WAIT_TIME_REPLAY_WITHDRAWAL_SECS.toUInt64 >
      currentUnixTimestampSecs.toUInt64 then pure none
  else pure (some { s with
    lastProcessedWithdrawalsAtMs := currentUnixTimestampSecs.toUInt64 * 1000 })

def findRecentAutoClaimTxoTreeRootAndBlockMerkleRoot (recentAutoClaimTxoRoot : QHash256) :
    UInt32 × QHash256 :=
  let found := (s.bridgeHeader.finalizedState :: s.recentFinalizedBlocks.toList).find?
    fun b => b.autoClaimedDepositsTreeRoot == recentAutoClaimTxoRoot
  match found with
  | some b => (b.blockHeight, b.blockMerkleTreeRoot)
  | none => (INVALID_BLOCK_HEIGHT, zeroBytes)

def processManualClaimedDeposit (txHash recentBlockMerkleTreeRoot recentAutoClaimTxoRoot : QHash256)
    (combinedTxoIndex : UInt64) (depositorAta : Vector UInt8 32) (depositAmountSats : UInt64) :
    QDogeResult (PsyBridgeProgramState × UInt64) := do
  let blockHeight := txoBlockNumber combinedTxoIndex
  let (rootHeight, blockMerkleTreeRoot) :=
    s.findRecentAutoClaimTxoTreeRootAndBlockMerkleRoot recentAutoClaimTxoRoot
  ensure (¬ (rootHeight = INVALID_BLOCK_HEIGHT ∨ blockHeight > rootHeight))
    (coreError .autoClaimedDepositTreeRootNotRecentEnough)
  ensure (blockMerkleTreeRoot = recentBlockMerkleTreeRoot)
    (coreError .blockMerkleTreeRootNotRecentEnough)
  let feeResult := (calcuateDepositFee depositAmountSats s.configParams.depositFlatFeeSats
    s.configParams.depositFeeRateNumerator s.configParams.depositFeeRateDenominator).getD ⟨0, 0⟩
  ensure (¬ (feeResult.feesGenerated = 0 ∨ feeResult.amountAfterFees = 0))
    (coreError .insufficientBridgeFees)
  let leafHash :=
    hashDepositLeaf c txHash combinedTxoIndex depositorAta feeResult.amountAfterFees
  pure ({ s with
    totalManualDepositFeesSats := s.totalManualDepositFeesSats + feeResult.feesGenerated
    manualDepositsTree := s.manualDepositsTree.append c leafHash }, feeResult.amountAfterFees)

def runBridgeOperatorWithdrawFeesPrecheck : QDogeResult (PsyBridgeProgramState × UInt64) := do
  ensure (¬ s.getTotalFinalizedFees ≤ s.totalFeesWithdrawnSats)
    (coreError .noOperatorFeesToWithdraw)
  let feesToWithdraw := s.getTotalFinalizedFees - s.totalFeesWithdrawnSats
  ensure (feesToWithdraw ≠ 0) (coreError .noOperatorFeesToWithdraw)
  pure ({ s with totalFeesWithdrawnSats := s.totalFeesWithdrawnSats + feesToWithdraw },
    feesToWithdraw)

section Accepted

variable {c s} {s' : PsyBridgeProgramState}

theorem processRequestWithdrawal_some {addressType : UInt32} {address : Vector UInt8 20}
    {amount : UInt64} :
    s.processRequestWithdrawal c addressType address amount = some s' ↔
      ∃ r, calcuateWithdrawalFee amount s.configParams.withdrawalFlatFeeSats
          s.configParams.withdrawalFeeRateNumerator s.configParams.withdrawalFeeRateDenominator =
          some r ∧ r.feesGenerated ≠ 0 ∧ r.amountAfterFees ≠ 0 ∧
        s' = { s with
          totalWithdrawalFeesSats := s.totalWithdrawalFeesSats + r.feesGenerated
          requestedWithdrawalsTree := s.requestedWithdrawalsTree.append c
            (PsyWithdrawalRequest.toLeaf ⟨r.amountAfterFees, addressType, address⟩)
          totalRequestedWithdrawalsSats := s.totalRequestedWithdrawalsSats + amount } := by
  unfold processRequestWithdrawal
  cases hf : calcuateWithdrawalFee amount s.configParams.withdrawalFlatFeeSats
      s.configParams.withdrawalFeeRateNumerator s.configParams.withdrawalFeeRateDenominator with
  | none => simp
  | some r =>
    simp only [Option.getD_some, Option.ite_none_left_eq_some, not_or, Option.some.injEq,
      exists_eq_left', and_assoc, eq_comm (a := s')]

theorem runProcessBridgeWithdrawal_ok {proof vk tx : Bytes} {out : PsyReturnTxOutput}
    {root : QHash256} {index : UInt64} {sighash : QHash256} :
    s.runProcessBridgeWithdrawal c proof vk tx out root index = .ok (s', sighash) ↔
      c.sha256 tx = out.sighash ∧ c.verifyCompactZkpSlice proof vk
        (s.getExpectedPublicInputsForWithdrawalProof c out root index).toList = true ∧
      s' = s.updateForWithdrawal c out root index ∧ sighash = out.sighash := by
  simp only [runProcessBridgeWithdrawal, bind_ok, ensure_ok, exists_const, pure_ok, Prod.mk.injEq]
  constructor
  · rintro ⟨hs, hv, rfl, rfl⟩
    exact ⟨hs, hv, rfl, hs⟩
  · rintro ⟨hs, hv, rfl, rfl⟩
    exact ⟨hs, hv, rfl, hs⟩

theorem processReplayWithdrawalProof_ok {proof : FixedMerkleAppendTreePartialMerkleProof}
    {now : UInt32} :
    s.processReplayWithdrawalProof c proof now = .ok (some s') ↔
      proof.computeRootSha256 c = some s.sentTransactionsTree.getRoot ∧
      ¬ s.lastProcessedWithdrawalsAtMs / 1000 + MIN_WAIT_TIME_REPLAY_WITHDRAWAL_SECS.toUInt64 >
        now.toUInt64 ∧
      s' = { s with lastProcessedWithdrawalsAtMs := now.toUInt64 * 1000 } := by
  simp only [processReplayWithdrawalProof, bind_ok, orFail_ok]
  constructor
  · rintro ⟨root, hr, h⟩
    split at h
    · simp at h
    · next hroot =>
      split at h
      · simp at h
      · next htime =>
        simp only [pure_ok, Option.some.injEq] at h
        exact ⟨by rw [hr, not_not.mp hroot], htime, h.symm⟩
  · rintro ⟨hr, ht, rfl⟩
    refine ⟨_, hr, ?_⟩
    rw [if_neg (not_not.mpr rfl), if_neg ht, pure_ok]

theorem processManualClaimedDeposit_ok {txHash blockRoot autoRoot : QHash256} {index : UInt64}
    {ata : Vector UInt8 32} {amount minted : UInt64} :
    s.processManualClaimedDeposit c txHash blockRoot autoRoot index ata amount = .ok (s', minted) ↔
      ¬ ((s.findRecentAutoClaimTxoTreeRootAndBlockMerkleRoot autoRoot).1 = INVALID_BLOCK_HEIGHT ∨
        txoBlockNumber index >
          (s.findRecentAutoClaimTxoTreeRootAndBlockMerkleRoot autoRoot).1) ∧
      (s.findRecentAutoClaimTxoTreeRootAndBlockMerkleRoot autoRoot).2 = blockRoot ∧
      ∃ r, calcuateDepositFee amount s.configParams.depositFlatFeeSats
          s.configParams.depositFeeRateNumerator s.configParams.depositFeeRateDenominator =
          some r ∧ r.feesGenerated ≠ 0 ∧ r.amountAfterFees ≠ 0 ∧
        s' = { s with
          totalManualDepositFeesSats := s.totalManualDepositFeesSats + r.feesGenerated
          manualDepositsTree := s.manualDepositsTree.append c
            (hashDepositLeaf c txHash index ata r.amountAfterFees) } ∧
        minted = r.amountAfterFees := by
  simp only [processManualClaimedDeposit, bind_ok, ensure_ok, exists_const, pure_ok, Prod.mk.injEq]
  refine and_congr_right fun _ => and_congr_right fun _ => ?_
  cases hf : calcuateDepositFee amount s.configParams.depositFlatFeeSats
      s.configParams.depositFeeRateNumerator s.configParams.depositFeeRateDenominator with
  | none => simp
  | some r =>
    simp only [Option.getD_some, not_or, Option.some.injEq, exists_eq_left', and_assoc,
      eq_comm (a := s'), eq_comm (a := minted)]

theorem runBridgeOperatorWithdrawFeesPrecheck_ok {fees : UInt64} :
    s.runBridgeOperatorWithdrawFeesPrecheck = .ok (s', fees) ↔
      s.totalFeesWithdrawnSats < s.getTotalFinalizedFees ∧
      fees = s.getTotalFinalizedFees - s.totalFeesWithdrawnSats ∧
      s' = { s with totalFeesWithdrawnSats := s.getTotalFinalizedFees } := by
  have hsum : s.totalFeesWithdrawnSats + (s.getTotalFinalizedFees - s.totalFeesWithdrawnSats) =
      s.getTotalFinalizedFees := by
    rw [UInt64.add_comm, UInt64.sub_add_cancel]
  simp only [runBridgeOperatorWithdrawFeesPrecheck, bind_ok, ensure_ok, exists_const, pure_ok,
    Prod.mk.injEq, UInt64.not_le, hsum]
  constructor
  · rintro ⟨hlt, -, rfl, rfl⟩
    exact ⟨hlt, rfl, rfl⟩
  · rintro ⟨hlt, rfl, rfl⟩
    refine ⟨hlt, ?_, rfl, rfl⟩
    intro h0
    rw [h0, UInt64.add_zero] at hsum
    rw [hsum] at hlt
    exact UInt64.lt_irrefl _ hlt

end Accepted

end PsyBridgeProgramState

end ProgramState
