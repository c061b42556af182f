import PsyDogeBridge.BridgeCalls

/-! The doge-bridge program: its eleven instructions on the accounts of the ledger. -/
namespace BridgeProcessor

open PodLayout CheckedSteps SolanaRuntime BridgeData AppendTree MintGroups ProgramState
  BlockTransition BridgeCalls

abbrev CompactBridgeZKProof := Vector UInt8 256

section VerifierKeys

variable (f : Features)

def SINGLE_BLOCK_UPDATE_VK : Vector UInt8 32 :=
  if f.mockZkp then
    const32 0xe047c8ffeb69e4f853676b3efb1d59fe8d42bf46234d0277c2faca79628fae24
  else zeroBytes

def BLOCK_REORG_VK : Vector UInt8 32 :=
  if f.mockZkp then
    const32 0xe456fc37a0ad020e1ae0f6d12f4ac51dd2b19264db565355320625903e33e1e1
  else zeroBytes

def WITHDRAWAL_VK : Vector UInt8 32 :=
  if f.mockZkp then
    const32 0x08e2af0fefb855e399bc030c818707e4f4fc20dc86f37233970f12aa87871410
  else zeroBytes

end VerifierKeys

structure BlockUpdateFixedData where
  proof : CompactBridgeZKProof
  header : PsyBridgeHeader

def BlockUpdateFixedData.pod : Pod BlockUpdateFixedData :=
  ((Pod.bytes 256).prod PsyBridgeHeader.pod).record
  { toFun d := (d.proof, d.header)
    invFun := fun (a, b) => ⟨a, b⟩
    left_inv _ := rfl
    right_inv _ := rfl }

structure ProcessWithdrawalInstructionData where
  proof : CompactBridgeZKProof
  newReturnOutput : PsyReturnTxOutput
  newSpentTxoTreeRoot : QHash256
  newNextProcessedWithdrawalsIndex : UInt64

def ProcessWithdrawalInstructionData.pod : Pod ProcessWithdrawalInstructionData :=
  ((Pod.bytes 256).prod (PsyReturnTxOutput.pod.prod (hashPod.prod Pod.u64))).record
  { toFun d := (d.proof, d.newReturnOutput, d.newSpentTxoTreeRoot,
      d.newNextProcessedWithdrawalsIndex)
    invFun := fun (a, b, c, d) => ⟨a, b, c, d⟩
    left_inv _ := rfl
    right_inv _ := rfl }

structure ProcessManualDepositInstructionData where
  txHash : QHash256
  recentBlockMerkleTreeRoot : QHash256
  recentAutoClaimTxoRoot : QHash256
  combinedTxoIndex : UInt64
  depositorSolanaPublicKey : Vector UInt8 32
  depositAmountSats : UInt64
  deriving DecidableEq

def ProcessManualDepositInstructionData.pod : Pod ProcessManualDepositInstructionData :=
  (hashPod.prod (hashPod.prod (hashPod.prod (Pod.u64.prod (hashPod.prod Pod.u64))))).record
  { toFun d := (d.txHash, d.recentBlockMerkleTreeRoot, d.recentAutoClaimTxoRoot,
      d.combinedTxoIndex, d.depositorSolanaPublicKey, d.depositAmountSats)
    invFun := fun (a, b, c, d, e, f) => ⟨a, b, c, d, e, f⟩
    left_inv _ := rfl
    right_inv _ := rfl }

inductive BridgeInstruction where
  | initializeBridge (params : InitializeBridgeInstructionData)
  | blockUpdate (fixed : BlockUpdateFixedData) (mintBufferBump txoBufferBump : UInt8)
  | requestWithdrawal (request : PsyWithdrawalRequest)
  | processWithdrawal (params : ProcessWithdrawalInstructionData)
  | operatorWithdrawFees
  | processManualDeposit (params : ProcessManualDepositInstructionData)
  | replayWithdrawal
  | processMintGroup (groupIndex : UInt16) (mintBufferPdaBump : UInt8) (shouldUnlock : Bool)
  | processReorgBlocks (fixed : BlockUpdateFixedData)
      (extraFinalizedBlocks : List FinalizedBlockMintTxoInfo) (mintBufferBump txoBufferBump : UInt8)
  | processMintGroupAutoAdvance (groupIndex : UInt16) (mintBufferPdaBump txoBufferPdaBump : UInt8)
      (shouldUnlock : Bool)
  | snapshotWithdrawals

/-- `ReorgBlockUpdateReader::new`: a fixed part and as many whole entries as follow it. -/
def reorgBlockUpdateReader (data : Bytes) :
    Option (BlockUpdateFixedData × List FinalizedBlockMintTxoInfo) :=
  let fixedSize := BlockUpdateFixedData.pod.size
  let itemSize := FinalizedBlockMintTxoInfo.pod.size
  if data.length < fixedSize then none
  else
    let items := (data.length - fixedSize) / itemSize
    some (BlockUpdateFixedData.pod.decode (data.take fixedSize),
      (List.range items).map fun i =>
        FinalizedBlockMintTxoInfo.pod.decode (slice data (fixedSize + i * itemSize) itemSize))

/-- The first byte selects the instruction, the arguments start at byte 8. -/
def unpack (instructionData : Bytes) : QDogeResult BridgeInstruction := do
  let malformed : Failure BridgeFault := bridgeError .serializationError
  ensure (instructionData ≠ []) malformed
  ensure (8 ≤ instructionData.length) .panic
  let data := instructionData.drop 8
  let byte (i : ℕ) : UInt8 := instructionData.getD i 0
  match (byte 0).toNat with
  | 0 => .initializeBridge <$> orFail (InitializeBridgeInstructionData.pod.read data) malformed
  | 1 => (.blockUpdate · (byte 6) (byte 7)) <$>
      orFail (BlockUpdateFixedData.pod.read data) malformed
  | 2 => .requestWithdrawal <$> orFail (PsyWithdrawalRequest.pod.read data) malformed
  | 3 => .processWithdrawal <$>
      orFail (ProcessWithdrawalInstructionData.pod.read data) malformed
  | 4 => pure .operatorWithdrawFees
  | 5 => .processManualDeposit <$>
      orFail (ProcessManualDepositInstructionData.pod.read data) malformed
  | 6 => pure .replayWithdrawal
  | 7 => do
    ensure (data.length = 4) malformed
    pure (.processMintGroup (Pod.u16.decode (data.take 2)) (data.getD 2 0) (data.getD 3 0 ≠ 0))
  | 8 => do
    let (fixed, extra) ← orFail (reorgBlockUpdateReader data) malformed
    pure (.processReorgBlocks fixed extra (byte 6) (byte 7))
  | 9 => do
    ensure (data.length = 4) malformed
    pure (.processMintGroupAutoAdvance (Pod.u16.decode (data.take 2)) (data.getD 2 0) (byte 7)
      (data.getD 3 0 ≠ 0))
  | 10 => pure .snapshotWithdrawals
  | _ => .error malformed

section Handlers

variable (env : BridgeEnv) (inv : Invocation) (l : Ledger)

def notEnoughAccountKeys : Failure BridgeFault := .program .notEnoughAccountKeys
def missingRequiredSignature : Failure BridgeFault := .program .missingRequiredSignature

def readState (k : Pubkey) : QDogeResult BridgeState :=
  orFail (BridgeState.pod.read (l k).data) (bridgeError .serializationError)

def writeState (k : Pubkey) (st : BridgeState) : QDogeResult Ledger :=
  writeData inv l k (BridgeState.pod.encode st)

def createAccountCall (payer bridgeState : AccountInfo) : Cpi where
  programId := SYSTEM_PROGRAM_ID
  accounts := [⟨payer.key, true, true⟩, ⟨bridgeState.key, true, true⟩]
  data := leBytes 4 0 ++ leBytes 8 BridgeState.pod.size ++ inv.programId.toList
  signer := some (env.bridgePda inv.programId)

def createIfEmpty (bridgeState payer : AccountInfo) : QDogeResult (Ledger × List Effect) :=
  if (l bridgeState.key).data.length = 0 then do
    ensure (inv.signs payer.key ∧ inv.writes payer.key) (.program .privilegeEscalation)
    let l ← createDerived inv l bridgeState.key BridgeState.pod.size
    pure (l, [.call (createAccountCall env inv payer bridgeState)])
  else pure (l, [])

def processInitialize (params : InitializeBridgeInstructionData) :
    QDogeResult (Ledger × List Effect) :=
  match inv.accounts with
  | bridgeState :: payer :: _systemProgram :: _ => do
    ensure (env.bridgePda inv.programId = bridgeState.key) (bridgeError .invalidPda)
    let (l, effects) ← createIfEmpty env inv l bridgeState payer
    let _ ← readState l bridgeState.key
    let l ← writeState inv l bridgeState.key
      ⟨PsyBridgeProgramState.initialized params, params.dogeMint⟩
    pure (l, effects)
  | _ => .error notEnoughAccountKeys

def lockerIf (tag : UInt8) (e : DogeBridgeError) (flag : Bool)
    (mintBuffer bridgeState : AccountInfo) : QDogeResult (Ledger × List Effect) :=
  if flag then do
    let (l, c) ← lockerInvoke env inv tag e mintBuffer bridgeState l
    pure (l, [.call c])
  else pure (l, [])

def lockIf : Bool → AccountInfo → AccountInfo → QDogeResult (Ledger × List Effect) :=
  lockerIf env inv l 4 .cpiLockCallError

def unlockIf : Bool → AccountInfo → AccountInfo → QDogeResult (Ledger × List Effect) :=
  lockerIf env inv l 5 .cpiUnlockCallError

def runTransition (st : BridgeState) (proof : CompactBridgeZKProof) (newHeader : PsyBridgeHeader)
    (extraFinalizedBlocks : List FinalizedBlockMintTxoInfo)
    (bridgeState mintBuffer txoBuffer : Pubkey) (isReorg : Bool) :
    QDogeResult PsyBridgeProgramState :=
  if isReorg then
    runBlockTransitionReorg env.crypto st.coreState proof.toList
      (BLOCK_REORG_VK env.features).toList newHeader extraFinalizedBlocks bridgeState mintBuffer
      (l txoBuffer).data (l mintBuffer).data
  else
    runStandardSingleBlockTransition env.crypto st.coreState proof.toList
      (SINGLE_BLOCK_UPDATE_VK env.features).toList newHeader bridgeState mintBuffer
      (l txoBuffer).data (l mintBuffer).data

/-- Either kind of block update. The buffer is unlocked again when the header does not move
the index of the next automatically claimed deposit. -/
def runBlockUpdateCommon (proof : CompactBridgeZKProof) (newHeader : PsyBridgeHeader)
    (extraFinalizedBlocks : List FinalizedBlockMintTxoInfo)
    (autoClaimMintBufferBump autoClaimTxoBufferBump : UInt8) (isReorg : Bool) :
    QDogeResult (Ledger × List Effect) :=
  match inv.accounts with
  | bridgeState :: mintBuffer :: txoBuffer :: operator :: _payer :: _mintBufferProgram ::
      _txoBufferProgram :: _ => do
    ensure (operator.isSigner = true) missingRequiredSignature
    let expected ← orFail (env.platform.createProgramAddress [PendingMintBuffer.MINT_BUFFER_SEED,
      operator.key.toList, [autoClaimMintBufferBump]] PENDING_MINT_BUFFER_BUILDER_PROGRAM_ID)
      (.program .invalidSeeds)
    ensure (mintBuffer.key = expected) (coreError .invalidMintBufferPda)
    let expected ← orFail (env.platform.createProgramAddress [TXO_BUFFER_SEED,
      operator.key.toList, [autoClaimTxoBufferBump]] TXO_BUFFER_BUILDER_PROGRAM_ID)
      (.program .invalidSeeds)
    ensure (txoBuffer.key = expected) (coreError .invalidTxoBufferPda)
    ensure ((l mintBuffer.key).owner = PENDING_MINT_BUFFER_BUILDER_PROGRAM_ID)
      (coreError .invalidMintBufferPdaProgram)
    let (l, locked) ← lockIf env inv l true mintBuffer bridgeState
    let st ← readState l bridgeState.key
    ensure ((l txoBuffer.key).owner = TXO_BUFFER_BUILDER_PROGRAM_ID) (.program .illegalOwner)
    ensure (mintBuffer.key ≠ bridgeState.key ∧ txoBuffer.key ≠ bridgeState.key)
      (.program .accountBorrowFailed)
    let core ← runTransition env l st proof newHeader extraFinalizedBlocks bridgeState.key
      mintBuffer.key txoBuffer.key isReorg
    let l ← writeState inv l bridgeState.key { st with coreState := core }
    let (l, unlocked) ← unlockIf env inv l
      (st.coreState.bridgeHeader.finalizedState.autoClaimedDepositsNextIndex =
        core.bridgeHeader.finalizedState.autoClaimedDepositsNextIndex) mintBuffer bridgeState
    pure (l, locked ++ unlocked)
  | _ => .error notEnoughAccountKeys

def processBlockUpdate (fixed : BlockUpdateFixedData) (mintBufferBump txoBufferBump : UInt8) :
    QDogeResult (Ledger × List Effect) :=
  runBlockUpdateCommon env inv l fixed.proof fixed.header [] mintBufferBump txoBufferBump false

def processReorgBlocks (fixed : BlockUpdateFixedData)
    (extraFinalizedBlocks : List FinalizedBlockMintTxoInfo)
    (mintBufferBump txoBufferBump : UInt8) : QDogeResult (Ledger × List Effect) :=
  runBlockUpdateCommon env inv l fixed.proof fixed.header extraFinalizedBlocks mintBufferBump
    txoBufferBump true

def unlockMismatch (shouldUnlock : Bool) : Failure BridgeFault :=
  if shouldUnlock then coreError .attemptedUnlockPendingMintBuffer
  else coreError .failedUnlockPendingMintBuffer

/-- What both mint-group instructions do once the group is marked as claimed: mint its records,
and unlock the buffer after the last group. -/
def mintClaimedGroup (bridgeState mintBuffer dogeMint : AccountInfo)
    (recipients : List AccountInfo) (claim : GroupClaim) (lockFirst shouldUnlock : Bool) :
    QDogeResult (Ledger × List Effect) := do
  ensure (claim.mintsCount.toNat = recipients.length) (bridgeError .invalidAccountInput)
  let (l, locked) ← lockIf env inv l lockFirst mintBuffer bridgeState
  let (l, minted) ← mintRecords env inv ⟨[], [mintBuffer.key]⟩ dogeMint bridgeState recipients
    (l mintBuffer.key).data claim.startOffset claim.mintsCount.toNat 0 l
  ensure (¬ (shouldUnlock = true ∧ lockFirst = true ∧
    claim.mintsCount > PM_MAX_PENDING_MINTS_PER_GROUP_U16))
      (coreError .cannotUnlockAfterAutoAdvance)
  let (l, unlocked) ← unlockIf env inv l shouldUnlock mintBuffer bridgeState
  pure (l, locked ++ minted ++ unlocked)

def processMintGroup (mintGroupIndex : UInt16) (shouldUnlock : Bool) :
    QDogeResult (Ledger × List Effect) :=
  match inv.accounts with
  | bridgeState :: mintBuffer :: operator :: dogeMint :: _payer :: _mintBufferProgram ::
      _tokenProgram :: recipients => do
    ensure (operator.isSigner = true) missingRequiredSignature
    let st ← readState l bridgeState.key
    let tracker := st.coreState.pendingMintTxos.currentPendingMintsTracker
    ensure (mintBuffer.key = tracker.lastFinalizedAutoClaimMintsStorageAccount)
      (coreError .invalidAccountKey)
    ensure (dogeMint.key = st.dogeMint) (bridgeError .invalidAccountInput)
    ensure (operator.key = st.coreState.accessControl.operatorPubkey) missingRequiredSignature
    let (core, claim) ← runAutoMintGroupPrecheck st.coreState mintGroupIndex mintBuffer.key
    ensure (claim.canUnlock = shouldUnlock) (unlockMismatch shouldUnlock)
    let l ← writeState inv l bridgeState.key { st with coreState := core }
    mintClaimedGroup env inv l bridgeState mintBuffer dogeMint recipients claim false shouldUnlock
  | _ => .error notEnoughAccountKeys

def advanceIf (advanceWithJit : Bool) (st : BridgeState) (bridgeState mintBuffer txoBuffer : Pubkey)
    (operator : Pubkey) (txoBufferPdaBump : UInt8) : QDogeResult PsyBridgeProgramState :=
  if advanceWithJit then do
    ensure ((l txoBuffer).owner = TXO_BUFFER_BUILDER_PROGRAM_ID) (.program .illegalOwner)
    let expectedTxo ← orFail (env.platform.createProgramAddress [TXO_BUFFER_SEED,
      operator.toList, [txoBufferPdaBump]] TXO_BUFFER_BUILDER_PROGRAM_ID) (.program .invalidSeeds)
    ensure (txoBuffer = expectedTxo) (coreError .invalidTxoBufferPda)
    ensure (txoBuffer ≠ bridgeState ∧ mintBuffer ≠ bridgeState) (.program .accountBorrowFailed)
    runSetupNextPendingBuffer env.crypto st.coreState bridgeState mintBuffer (l txoBuffer).data
      (l mintBuffer).data
  else pure st.coreState

/-- Like `processMintGroup`, but it first moves on to the next block of the backlog when the
current one is done. It compares neither the mint nor the operator with the stored ones. -/
def processMintGroupAutoAdvance (mintGroupIndex : UInt16) (txoBufferPdaBump : UInt8)
    (shouldUnlock : Bool) : QDogeResult (Ledger × List Effect) :=
  match inv.accounts with
  | bridgeState :: mintBuffer :: txoBuffer :: operator :: dogeMint :: _payer ::
      _mintBufferProgram :: _txoBufferProgram :: _tokenProgram :: recipients => do
    ensure (operator.isSigner = true) missingRequiredSignature
    let st ← readState l bridgeState.key
    let advanceWithJit : Bool := st.coreState.pendingMintTxos.currentPendingMintsTracker.isEmpty &&
      !st.coreState.pendingMintTxos.isEmpty
    let core ← advanceIf env l advanceWithJit st bridgeState.key mintBuffer.key txoBuffer.key
      operator.key txoBufferPdaBump
    let tracker := core.pendingMintTxos.currentPendingMintsTracker
    ensure (mintBuffer.key = tracker.lastFinalizedAutoClaimMintsStorageAccount)
      (coreError .invalidAccountKey)
    let (core, claim) ← runAutoMintGroupPrecheck core mintGroupIndex mintBuffer.key
    ensure (claim.canUnlock = shouldUnlock) (unlockMismatch shouldUnlock)
    let l ← writeState inv l bridgeState.key { st with coreState := core }
    mintClaimedGroup env inv l bridgeState mintBuffer dogeMint recipients claim advanceWithJit
      shouldUnlock
  | _ => .error notEnoughAccountKeys

/-- The mint is not compared with the one in the state. -/
def processRequestWithdrawal (request : PsyWithdrawalRequest) :
    QDogeResult (Ledger × List Effect) :=
  match inv.accounts with
  | bridgeState :: userTokenAccount :: dogeMint :: userAuthority :: _tokenProgram :: _ => do
    let st ← readState l bridgeState.key
    let core ← orFail (st.coreState.processRequestWithdrawal env.crypto request.addressType
      request.recipientAddress request.amountSats) (coreError .invalidWithdrawalAmount)
    let l ← writeState inv l bridgeState.key { st with coreState := core }
    let (l, c) ← burnFrom env inv ⟨[bridgeState.key], []⟩ dogeMint userTokenAccount userAuthority
      request.amountSats l
    pure (l, [.call c])
  | _ => .error notEnoughAccountKeys

/-- The accounts of both instructions that post a message; nothing is compared with the key of
the shim program. -/
def shimAccounts (accounts : List AccountInfo) :
    QDogeResult (AccountInfo × AccountInfo × ShimAccounts) :=
  match accounts with
  | bridgeState :: dogeTxBuffer :: shimProgram :: bridgeConfig :: message :: sequence :: payer ::
      feeCollector :: clock :: systemProgram :: coreBridgeProgram :: eventAuthority :: _ =>
    .ok (bridgeState, dogeTxBuffer, ⟨shimProgram, bridgeConfig, message, sequence, payer,
      feeCollector, clock, systemProgram, coreBridgeProgram, eventAuthority⟩)
  | _ => .error notEnoughAccountKeys

def processProcessWithdrawal (params : ProcessWithdrawalInstructionData) :
    QDogeResult (Ledger × List Effect) := do
  let (bridgeState, dogeTxBuffer, shim) ← shimAccounts inv.accounts
  ensure (bridgeState.key = env.bridgePda inv.programId) (bridgeError .invalidPda)
  ensure ((l dogeTxBuffer.key).owner = GENERIC_BUFFER_BUILDER_PROGRAM_ID) (.program .illegalOwner)
  let st ← readState l bridgeState.key
  ensure (dogeTxBuffer.key ≠ bridgeState.key) (.program .accountBorrowFailed)
  let dogecoinTx := (l dogeTxBuffer.key).data
  ensure (32 ≤ dogecoinTx.length) (bridgeError .invalidAccountInput)
  let txData := dogecoinTx.drop 32
  let (core, sighash) ← st.coreState.runProcessBridgeWithdrawal env.crypto params.proof.toList
    (WITHDRAWAL_VK env.features).toList txData params.newReturnOutput params.newSpentTxoTreeRoot
    params.newNextProcessedWithdrawalsIndex
  let nonce := (core.nextProcessedWithdrawalsIndex &&& 0xFFFFFFFF).toUInt32
  let l ← writeState inv l bridgeState.key { st with coreState := core }
  sendWormholeVaa env inv ⟨[], [dogeTxBuffer.key]⟩ nonce shim bridgeState sighash.toList txData l

def processOperatorWithdrawFees : QDogeResult (Ledger × List Effect) :=
  match inv.accounts with
  | bridgeState :: operatorTokenAccount :: dogeMint :: operator :: _tokenProgram :: _ => do
    ensure (operator.isSigner = true) missingRequiredSignature
    let st ← readState l bridgeState.key
    ensure (dogeMint.key = st.dogeMint) (bridgeError .invalidAccountInput)
    ensure (operator.key = st.coreState.accessControl.operatorPubkey) missingRequiredSignature
    let (core, feesToWithdraw) ← st.coreState.runBridgeOperatorWithdrawFeesPrecheck
    let l ← writeState inv l bridgeState.key { st with coreState := core }
    let (l, c) ← mintTo env inv .none dogeMint bridgeState [operatorTokenAccount] 0
      operatorTokenAccount.key feesToWithdraw l
    pure (l, [.call c])
  | _ => .error notEnoughAccountKeys

def verifyLowestPda (baseSeed : Bytes) (providedAccount programId userKey : Pubkey) :
    QDogeResult Unit :=
  ensure (providedAccount =
    (env.platform.findProgramAddress [baseSeed, userKey.toList] programId).1)
    (.program .invalidSeeds)

def processProcessManualDeposit (params : ProcessManualDepositInstructionData) :
    QDogeResult (Ledger × List Effect) :=
  match inv.accounts with
  | bridgeState :: recipient :: dogeMint :: _tokenProgram :: manualClaimProgramSigner :: _ => do
    ensure (manualClaimProgramSigner.isSigner = true) missingRequiredSignature
    verifyLowestPda env MANUAL_CLAIM_SEED manualClaimProgramSigner.key MANUAL_CLAIM_PROGRAM_ID
      params.depositorSolanaPublicKey
    let st ← readState l bridgeState.key
    let (core, mintAmount) ← st.coreState.processManualClaimedDeposit env.crypto params.txHash
      params.recentBlockMerkleTreeRoot params.recentAutoClaimTxoRoot params.combinedTxoIndex
      recipient.key params.depositAmountSats
    let l ← writeState inv l bridgeState.key { st with coreState := core }
    let (l, c) ← mintTo env inv .none dogeMint bridgeState [recipient] 0 recipient.key mintAmount l
    pure (l, [.call c])
  | _ => .error notEnoughAccountKeys

def currentTimestamp : UInt32 := UInt32.ofNat (inv.unixTimestamp % 2 ^ 32).toNat

def processReplayWithdrawal : QDogeResult (Ledger × List Effect) := do
  let proofSize := FixedMerkleAppendTreePartialMerkleProof.pod.size
  let (bridgeState, dogeTxBuffer, shim) ← shimAccounts inv.accounts
  ensure (bridgeState.key = env.bridgePda inv.programId) (bridgeError .invalidPda)
  ensure ((l dogeTxBuffer.key).owner = GENERIC_BUFFER_BUILDER_PROGRAM_ID) (.program .illegalOwner)
  let st ← readState l bridgeState.key
  ensure (dogeTxBuffer.key ≠ bridgeState.key) (.program .accountBorrowFailed)
  let buffer := (l dogeTxBuffer.key).data
  ensure (32 + proofSize + 10 ≤ buffer.length) (bridgeError .invalidAccountInput)
  let proof := FixedMerkleAppendTreePartialMerkleProof.pod.decode (slice buffer 32 proofSize)
  let txData := buffer.drop (32 + proofSize)
  let sighash := env.crypto.sha256 (env.crypto.sha256 txData).toList
  let now := currentTimestamp inv
  let now := if st.coreState.lastProcessedWithdrawalsAtMs = now.toUInt64 then now + 1 else now
  ensure (proof.value = sighash) (bridgeError .invalidAccountInput)
  let replayed ← st.coreState.processReplayWithdrawalProof env.crypto proof now
  let core ← orFail replayed (bridgeError .coreError)
  let nonce := (core.nextProcessedWithdrawalsIndex &&& 0xFFFFFFFF).toUInt32
  let l ← writeState inv l bridgeState.key { st with coreState := core }
  sendWormholeVaa env inv ⟨[], [dogeTxBuffer.key]⟩ nonce shim bridgeState sighash.toList txData l

def processSnapshotWithdrawals : QDogeResult (Ledger × List Effect) :=
  match inv.accounts with
  | bridgeState :: operator :: _payer :: _ => do
    ensure (operator.isSigner = true) missingRequiredSignature
    ensure (env.bridgePda inv.programId = bridgeState.key) (bridgeError .invalidPda)
    let st ← readState l bridgeState.key
    ensure (st.coreState.accessControl.operatorPubkey = operator.key) missingRequiredSignature
    let l ← writeState inv l bridgeState.key
      { st with coreState := st.coreState.snapshotForWithdrawal (currentTimestamp inv) }
    pure (l, [])
  | _ => .error notEnoughAccountKeys

def execute (ix : BridgeInstruction) : QDogeResult (Ledger × List Effect) :=
  match ix with
  | .initializeBridge params => processInitialize env inv l params
  | .blockUpdate fixed mintBump txoBump => processBlockUpdate env inv l fixed mintBump txoBump
  | .requestWithdrawal request => processRequestWithdrawal env inv l request
  | .processWithdrawal params => processProcessWithdrawal env inv l params
  | .operatorWithdrawFees => processOperatorWithdrawFees env inv l
  | .processManualDeposit params => processProcessManualDeposit env inv l params
  | .replayWithdrawal => processReplayWithdrawal env inv l
  | .processMintGroup groupIndex _ shouldUnlock =>
    processMintGroup env inv l groupIndex shouldUnlock
  | .processReorgBlocks fixed extra mintBump txoBump =>
    processReorgBlocks env inv l fixed extra mintBump txoBump
  | .processMintGroupAutoAdvance groupIndex _ txoBump shouldUnlock =>
    processMintGroupAutoAdvance env inv l groupIndex txoBump shouldUnlock
  | .snapshotWithdrawals => processSnapshotWithdrawals env inv l

def processInstruction (instructionData : Bytes) : QDogeResult (Ledger × List Effect) := do
  let ix ← unpack instructionData
  execute env inv l ix

end Handlers

end BridgeProcessor
