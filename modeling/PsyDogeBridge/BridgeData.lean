import PsyDogeBridge.SolanaRuntime

/-! The records, constants and errors that the bridge programs share.
Every record is `repr(C)` plain old data, so its layout is the layout of its fields in order. -/
namespace BridgeData

open PodLayout SolanaRuntime

abbrev QHash256 := Vector UInt8 32

def const32 (n : ℕ) : Vector UInt8 32 := Vector.ofFn fun i => UInt8.ofNat (n / 256 ^ (31 - i.val))

def zeroBytes : Vector UInt8 32 := Vector.replicate 32 0

def TXO_BUFFER_BUILDER_PROGRAM_ID : Pubkey :=
  const32 0x06cb99e787f5326d66c70d863b93763b887b42c115bb6e10b33b6d8329ed97fd
def PENDING_MINT_BUFFER_BUILDER_PROGRAM_ID : Pubkey :=
  const32 0x05b9ed4aaa7bd64d5b9d2f0c24da8d0b934d595a0e6994e9dad0b315c146cb22
def GENERIC_BUFFER_BUILDER_PROGRAM_ID : Pubkey :=
  const32 0xe1928c99024415b612c36800cd8e1c1c41a08ebed82e993624648554925415bf
def MANUAL_CLAIM_PROGRAM_ID : Pubkey :=
  const32 0x052cc4301696b1c8684dc987062557a958175d82004befbe9a492830be0d0893
def DOGE_BRIDGE_PROGRAM_ID : Pubkey :=
  const32 0xb50c706d53ac959ee217704afdb8f08a6c180d78f34f19df35ddb0a53ad363f3
def NOOP_SHIM_PROGRAM_ID : Pubkey :=
  const32 0xdde6c6fbf72871a193e2c3e5659450ffe0ce42bc9d4596a42146b412e541f4a7
def TOKEN_PROGRAM_ID : Pubkey :=
  const32 0x06ddf6e1d765a193d9cbe146ceeb79ac1cb485ed5f5b37913a8cf5857eff00a9

inductive DogeBridgeError where
  | serializationError
  | invalidAccountKey
  | accountMismatch
  | invalidMintBufferPda
  | invalidTxoBufferPda
  | invalidMintBufferPdaProgram
  | attemptedUnlockPendingMintBuffer
  | failedUnlockPendingMintBuffer
  | cannotUnlockAfterAutoAdvance
  | cpiTokenMintToCallError
  | cpiTokenBurnCallError
  | cpiLockCallError
  | cpiUnlockCallError
  | cpiManualDepositCallError
  | noPendingMintsToAutoProcess
  | noPendingMintsToProcess
  | remainingPendingMintsInPreviousState
  | pendingFinalizedBlockMintsNotEmpty
  | pendingFinalizedBlockMintsInvalidGroupCount
  | pendingFinalizedBlockMintsInvalidAutoClaimMintsData
  | pendingMintsGroupIndexOutOfBounds
  | pendingMintsGroupAlreadyProcessed
  | invalidAutoClaimMintBufferDataAccountSize
  | invalidMintBufferLockingPermission
  | invalidMintBufferPendingMintGroupsCount
  | invalidMintBufferPendingMintsCount
  | invalidPendingMintsBufferHash
  | invalidPendingMintsCountForTransition
  | programStateNotReadyForBlockUpdate
  | invalidZKProofSize
  | invalidZKVerifierKeySize
  | invalidBlockHeightForSingleBlockTransition
  | invalidBlockHeightForReorgTransition
  | invalidExtraFinalizedBlocksLengthForReorg
  | invalidAutoClaimedDepositsNextIndex
  | tooManyNewAutoClaimedDeposits
  | invalidBridgeInputZKP
  | bridgeZKPError
  | invalidAutoClaimTxoBufferDataAccountSize
  | invalidAutoClaimTxoBufferPendingMintsCount
  | invalidAutoClaimTxoBufferHash
  | invalidDogeTxHash
  | invalidWithdrawalAmount
  | autoClaimedDepositTreeRootNotRecentEnough
  | blockMerkleTreeRootNotRecentEnough
  | insufficientBridgeFees
  | noOperatorFeesToWithdraw
  | invalidPDAForManualDepositManager
  | revertIndexTooHigh
  | notEnoughChangedLeftSiblings
  | tooManyChangedLeftSiblings
  deriving DecidableEq, Repr

inductive BridgeError where
  | coreError
  | serializationError
  | invalidPda
  | invalidAccountInput
  | unauthorizedManualClaimer
  deriving DecidableEq, Repr

inductive BridgeFault where
  | core (e : DogeBridgeError)
  | bridge (e : BridgeError)
  deriving DecidableEq, Repr

abbrev QDogeResult (α : Type) := Except (Failure BridgeFault) α

def coreError (e : DogeBridgeError) : Failure BridgeFault := .custom (.core e)
def bridgeError (e : BridgeError) : Failure BridgeFault := .custom (.bridge e)

/-- The hash function and the zero-knowledge verifier that the programs are built with. -/
structure Crypto where
  sha256 : Bytes → QHash256
  verifyCompactZkpSlice : Bytes → Bytes → Bytes → Bool

structure PsyBridgeStateCommitment where
  blockHash : QHash256
  blockMerkleTreeRoot : QHash256
  pendingMintsFinalizedHash : QHash256
  txoOutputListFinalizedHash : QHash256
  autoClaimedTxoTreeRoot : QHash256
  autoClaimedDepositsTreeRoot : QHash256
  autoClaimedDepositsNextIndex : UInt32
  blockHeight : UInt32
  deriving DecidableEq

structure PsyBridgeTipStateCommitment where
  blockHash : QHash256
  blockMerkleTreeRoot : QHash256
  blockTime : UInt32
  blockHeight : UInt32
  deriving DecidableEq

structure PsyBridgeHeader where
  tipState : PsyBridgeTipStateCommitment
  finalizedState : PsyBridgeStateCommitment
  bridgeStateHash : QHash256
  lastRollbackAtSecs : UInt32
  pausedUntilSecs : UInt32
  totalFinalizedFeesCollectedChainHistory : UInt64
  deriving DecidableEq

abbrev hashPod : Pod QHash256 := .bytes 32

theorem hashPod_decode (h : QHash256) : hashPod.decode h.toList = h := by
  rw [← Pod.bytes_encode]
  exact Pod.decode_encode _ _

def PsyBridgeStateCommitment.pod : Pod PsyBridgeStateCommitment :=
  (hashPod.prod (hashPod.prod (hashPod.prod (hashPod.prod (hashPod.prod (hashPod.prod
    (Pod.u32.prod Pod.u32))))))).record
  { toFun s := (s.blockHash, s.blockMerkleTreeRoot, s.pendingMintsFinalizedHash,
      s.txoOutputListFinalizedHash, s.autoClaimedTxoTreeRoot, s.autoClaimedDepositsTreeRoot,
      s.autoClaimedDepositsNextIndex, s.blockHeight)
    invFun := fun (a, b, c, d, e, f, g, h) => ⟨a, b, c, d, e, f, g, h⟩
    left_inv _ := rfl
    right_inv _ := rfl }

def PsyBridgeTipStateCommitment.pod : Pod PsyBridgeTipStateCommitment :=
  (hashPod.prod (hashPod.prod (Pod.u32.prod Pod.u32))).record
  { toFun s := (s.blockHash, s.blockMerkleTreeRoot, s.blockTime, s.blockHeight)
    invFun := fun (a, b, c, d) => ⟨a, b, c, d⟩
    left_inv _ := rfl
    right_inv _ := rfl }

def PsyBridgeHeader.pod : Pod PsyBridgeHeader :=
  (PsyBridgeTipStateCommitment.pod.prod (PsyBridgeStateCommitment.pod.prod (hashPod.prod
    (Pod.u32.prod (Pod.u32.prod Pod.u64))))).record
  { toFun h := (h.tipState, h.finalizedState, h.bridgeStateHash, h.lastRollbackAtSecs,
      h.pausedUntilSecs, h.totalFinalizedFeesCollectedChainHistory)
    invFun := fun (a, b, c, d, e, f) => ⟨a, b, c, d, e, f⟩
    left_inv _ := rfl
    right_inv _ := rfl }

def PsyBridgeHeader.getHashCanonical (c : Crypto) (h : PsyBridgeHeader) : QHash256 :=
  c.sha256 (PsyBridgeHeader.pod.encode h)

def hashTwoToOne (c : Crypto) (left right : QHash256) : QHash256 :=
  c.sha256 (left.toList ++ right.toList)

def hashv (c : Crypto) (parts : List Bytes) : QHash256 := c.sha256 parts.flatten

structure PsyWithdrawalRequest where
  amountSats : UInt64
  addressType : UInt32
  recipientAddress : Vector UInt8 20
  deriving DecidableEq

def PsyWithdrawalRequest.pod : Pod PsyWithdrawalRequest :=
  (Pod.u64.prod (Pod.u32.prod (.bytes 20))).record
  { toFun r := (r.amountSats, r.addressType, r.recipientAddress)
    invFun := fun (a, b, c) => ⟨a, b, c⟩
    left_inv _ := rfl
    right_inv _ := rfl }

/-- The leaf is the record itself: eight bytes of amount, four of type, twenty of address. -/
def PsyWithdrawalRequest.toLeaf (r : PsyWithdrawalRequest) : QHash256 :=
  hashPod.decode (PsyWithdrawalRequest.pod.encode r)

structure PsyWithdrawalChainSnapshot where
  autoClaimedDepositsTreeRoot : QHash256
  requestedWithdrawalsTreeRoot : QHash256
  blockMerkleTreeRoot : QHash256
  manualDepositsTreeRoot : QHash256
  blockHeight : UInt32
  lastSnapshottedForWithdrawalsSeconds : UInt32
  nextRequestedWithdrawalsTreeIndex : UInt64
  nextManualDepositsTreeIndex : UInt64
  deriving DecidableEq

def PsyWithdrawalChainSnapshot.pod : Pod PsyWithdrawalChainSnapshot :=
  (hashPod.prod (hashPod.prod (hashPod.prod (hashPod.prod (Pod.u32.prod (Pod.u32.prod
    (Pod.u64.prod Pod.u64))))))).record
  { toFun s := (s.autoClaimedDepositsTreeRoot, s.requestedWithdrawalsTreeRoot,
      s.blockMerkleTreeRoot, s.manualDepositsTreeRoot, s.blockHeight,
      s.lastSnapshottedForWithdrawalsSeconds, s.nextRequestedWithdrawalsTreeIndex,
      s.nextManualDepositsTreeIndex)
    invFun := fun (a, b, c, d, e, f, g, h) => ⟨a, b, c, d, e, f, g, h⟩
    left_inv _ := rfl
    right_inv _ := rfl }

def PsyWithdrawalChainSnapshot.getHash (c : Crypto) (s : PsyWithdrawalChainSnapshot) : QHash256 :=
  c.sha256 (PsyWithdrawalChainSnapshot.pod.encode s)

def PsyWithdrawalChainSnapshot.default : PsyWithdrawalChainSnapshot :=
  ⟨zeroBytes, zeroBytes, zeroBytes, zeroBytes, 0, 0, 0, 0⟩

structure PsyReturnTxOutput where
  sighash : QHash256
  outputIndex : UInt64
  amountSats : UInt64
  deriving DecidableEq

def PsyReturnTxOutput.pod : Pod PsyReturnTxOutput :=
  (hashPod.prod (Pod.u64.prod Pod.u64)).record
  { toFun o := (o.sighash, o.outputIndex, o.amountSats)
    invFun := fun (a, b, c) => ⟨a, b, c⟩
    left_inv _ := rfl
    right_inv _ := rfl }

def PsyReturnTxOutput.getHash (c : Crypto) (o : PsyReturnTxOutput) : QHash256 :=
  c.sha256 (PsyReturnTxOutput.pod.encode o)

structure PsyBridgeConfig where
  depositFeeRateNumerator : UInt64
  depositFeeRateDenominator : UInt64
  withdrawalFeeRateNumerator : UInt64
  withdrawalFeeRateDenominator : UInt64
  depositFlatFeeSats : UInt64
  withdrawalFlatFeeSats : UInt64
  deriving DecidableEq

def PsyBridgeConfig.pod : Pod PsyBridgeConfig :=
  (Pod.u64.prod (Pod.u64.prod (Pod.u64.prod (Pod.u64.prod (Pod.u64.prod Pod.u64))))).record
  { toFun s := (s.depositFeeRateNumerator, s.depositFeeRateDenominator,
      s.withdrawalFeeRateNumerator, s.withdrawalFeeRateDenominator, s.depositFlatFeeSats,
      s.withdrawalFlatFeeSats)
    invFun := fun (a, b, c, d, e, f) => ⟨a, b, c, d, e, f⟩
    left_inv _ := rfl
    right_inv _ := rfl }

def PsyBridgeConfig.getHash (c : Crypto) (s : PsyBridgeConfig) : QHash256 :=
  c.sha256 (PsyBridgeConfig.pod.encode s)

structure PsyBridgeAccessControlHeader where
  operatorPubkey : Vector UInt8 32
  feeSpenderPubkey : Vector UInt8 32
  deriving DecidableEq

def PsyBridgeAccessControlHeader.pod : Pod PsyBridgeAccessControlHeader :=
  (hashPod.prod hashPod).record
  { toFun s := (s.operatorPubkey, s.feeSpenderPubkey)
    invFun := fun (a, b) => ⟨a, b⟩
    left_inv _ := rfl
    right_inv _ := rfl }

structure PendingMint where
  recipient : Vector UInt8 32
  amount : UInt64
  deriving DecidableEq

def PendingMint.pod : Pod PendingMint :=
  (hashPod.prod Pod.u64).record
  { toFun m := (m.recipient, m.amount)
    invFun := fun (a, b) => ⟨a, b⟩
    left_inv _ := rfl
    right_inv _ := rfl }

abbrev PM_DA_PENDING_MINT_SIZE : ℕ := 40

@[simp] theorem PendingMint.pod_size : PendingMint.pod.size = PM_DA_PENDING_MINT_SIZE := rfl

structure PendingMintsBufferStateHeader where
  authorizedLockerPublicKey : Vector UInt8 32
  authorizedWriterPublicKey : Vector UInt8 32
  isLocked : UInt8
  mode : UInt8
  pendingMintGroupsCount : UInt16
  pendingMintsInitialized : UInt16
  pendingMintsCount : UInt16
  deriving DecidableEq

def PendingMintsBufferStateHeader.pod : Pod PendingMintsBufferStateHeader :=
  (hashPod.prod (hashPod.prod (Pod.u8.prod (Pod.u8.prod (Pod.u16.prod
    (Pod.u16.prod Pod.u16)))))).record
  { toFun h := (h.authorizedLockerPublicKey, h.authorizedWriterPublicKey, h.isLocked, h.mode,
      h.pendingMintGroupsCount, h.pendingMintsInitialized, h.pendingMintsCount)
    invFun := fun (a, b, c, d, e, f, g) => ⟨a, b, c, d, e, f, g⟩
    left_inv _ := rfl
    right_inv _ := rfl }

abbrev PM_DA_PENDING_MINTS_BUFFER_STATE_HEADER_SIZE : ℕ := 72

@[simp] theorem PendingMintsBufferStateHeader.pod_size :
    PendingMintsBufferStateHeader.pod.size = PM_DA_PENDING_MINTS_BUFFER_STATE_HEADER_SIZE := rfl

def mintBufferHeader (mem : Bytes) : PendingMintsBufferStateHeader :=
  PendingMintsBufferStateHeader.pod.decode
    (slice mem 0 PM_DA_PENDING_MINTS_BUFFER_STATE_HEADER_SIZE)

abbrev PM_MAX_PENDING_MINTS_PER_GROUP : ℕ := 24
abbrev PM_MAX_PENDING_MINTS_PER_GROUP_U16 : UInt16 := 24

def pmCalculateDataAccountMinSize (pendingMintsCount : UInt16) : ℕ :=
  let groups := (pendingMintsCount.toNat + PM_MAX_PENDING_MINTS_PER_GROUP - 1) /
    PM_MAX_PENDING_MINTS_PER_GROUP
  PM_DA_PENDING_MINTS_BUFFER_STATE_HEADER_SIZE + groups * 32 +
    pendingMintsCount.toNat * PM_DA_PENDING_MINT_SIZE

def PM_DA_DEFAULT_PENDING_MINTS_BUFFER_HASH : QHash256 :=
  const32 0x96a296d224f285c67bee93c30f8a309157f0daa35dc5b87e410b78630a09cfc7

structure PendingMintsTxoBufferHeader where
  authorizedWriter : Vector UInt8 32
  initStatus : UInt16
  finalizedStatus : UInt16
  dogeBlockHeight : UInt32
  batchId : UInt32
  dataSize : UInt32
  deriving DecidableEq

def PendingMintsTxoBufferHeader.pod : Pod PendingMintsTxoBufferHeader :=
  (hashPod.prod (Pod.u16.prod (Pod.u16.prod (Pod.u32.prod (Pod.u32.prod Pod.u32))))).record
  { toFun h := (h.authorizedWriter, h.initStatus, h.finalizedStatus, h.dogeBlockHeight,
      h.batchId, h.dataSize)
    invFun := fun (a, b, c, d, e, f) => ⟨a, b, c, d, e, f⟩
    left_inv _ := rfl
    right_inv _ := rfl }

abbrev PM_TXO_BUFFER_HEADER_SIZE : ℕ := 48

@[simp] theorem PendingMintsTxoBufferHeader.pod_size :
    PendingMintsTxoBufferHeader.pod.size = PM_TXO_BUFFER_HEADER_SIZE := rfl

def txoBufferHeader (mem : Bytes) : PendingMintsTxoBufferHeader :=
  PendingMintsTxoBufferHeader.pod.decode (slice mem 0 PM_TXO_BUFFER_HEADER_SIZE)

def PM_TXO_DEFAULT_BUFFER_HASH : QHash256 :=
  const32 0xe3b0c44298fc1c149afbf4c8996fb92427ae41e4649b934ca495991b7852b855

def pmTxoDataAccountMinSize (totalPendingMints : UInt16) : ℕ :=
  PM_TXO_BUFFER_HEADER_SIZE + totalPendingMints.toNat * 4

end BridgeData
