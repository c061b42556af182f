import PsyDogeBridge.ManualClaimClient

/-! The instructions that the JavaScript client builds for the bridge, and what the program reads
in them. The client writes the tip of the chain as a whole state commitment, which is 128 bytes
longer than the tip that the program reads. -/
namespace JsInstructions

open PodLayout CheckedSteps SolanaRuntime BridgeData MintGroups ProgramState BridgeCalls
  BridgeProcessor InstructionCodec
open ManualClaimClient (Instruction)

structure JsBridgeHeader where
  tipState : PsyBridgeStateCommitment
  finalizedState : PsyBridgeStateCommitment
  bridgeStateHash : QHash256
  lastRollbackAtSecs : UInt32
  pausedUntilSecs : UInt32
  totalFinalizedFeesCollectedChainHistory : UInt64
  deriving DecidableEq

structure JsInitializeBridgeParams where
  bridgeHeader : JsBridgeHeader
  startReturnTxoOutput : PsyReturnTxOutput
  configParams : PsyBridgeConfig
  custodianWalletConfig : QHash256

def encodePsyBridgeStateCommitment (state : PsyBridgeStateCommitment) : Bytes :=
  state.blockHash.toList ++ state.blockMerkleTreeRoot.toList ++
    state.pendingMintsFinalizedHash.toList ++ state.txoOutputListFinalizedHash.toList ++
    state.autoClaimedTxoTreeRoot.toList ++ state.autoClaimedDepositsTreeRoot.toList ++
    Pod.u32.encode state.autoClaimedDepositsNextIndex ++ Pod.u32.encode state.blockHeight

def encodePsyBridgeHeader (header : JsBridgeHeader) : Bytes :=
  encodePsyBridgeStateCommitment header.tipState ++
    encodePsyBridgeStateCommitment header.finalizedState ++ header.bridgeStateHash.toList ++
    Pod.u32.encode header.lastRollbackAtSecs ++ Pod.u32.encode header.pausedUntilSecs ++
    Pod.u64.encode header.totalFinalizedFeesCollectedChainHistory

def encodePsyReturnTxOutput (output : PsyReturnTxOutput) : Bytes :=
  output.sighash.toList ++ Pod.u64.encode output.outputIndex ++ Pod.u64.encode output.amountSats

def encodePsyBridgeConfig (config : PsyBridgeConfig) : Bytes :=
  Pod.u64.encode config.depositFeeRateNumerator ++
    Pod.u64.encode config.depositFeeRateDenominator ++
    Pod.u64.encode config.withdrawalFeeRateNumerator ++
    Pod.u64.encode config.withdrawalFeeRateDenominator ++
    Pod.u64.encode config.depositFlatFeeSats ++ Pod.u64.encode config.withdrawalFlatFeeSats

def encodeFinalizedBlockMintTxoInfo (info : FinalizedBlockMintTxoInfo) : Bytes :=
  info.pendingMintsFinalizedHash.toList ++ info.txoOutputListFinalizedHash.toList

def createInstructionHeader (instruction : UInt8) (bumps : List UInt8) : Except String Bytes := do
  ensure (bumps.length < 8) "Bumps length cannot be greater than 7"
  pure (List.replicate (8 - bumps.length) instruction ++ bumps)

def getBridgeStatePda (p : Platform) (programId : Pubkey) : Pubkey × UInt8 :=
  p.findProgramAddress [BRIDGE_STATE_SEED] programId

def initializeBridge (p : Platform)
    (payer operatorPubkey feeSpenderPubkey dogeMint : Pubkey) (params : JsInitializeBridgeParams)
    (programId : Pubkey) : Except String Instruction := do
  let instructionData := operatorPubkey.toList ++ feeSpenderPubkey.toList ++ dogeMint.toList ++
    encodePsyBridgeHeader params.bridgeHeader ++
    encodePsyReturnTxOutput params.startReturnTxoOutput ++
    encodePsyBridgeConfig params.configParams ++ params.custodianWalletConfig.toList
  let header ← createInstructionHeader 0 []
  pure
    { programId := programId
      accounts := [⟨(getBridgeStatePda p programId).1, false, true⟩, ⟨payer, true, true⟩,
        ⟨SYSTEM_PROGRAM_ID, false, false⟩]
      data := header ++ instructionData }

def updateAccounts (p : Platform)
    (programId payer operator mintBuffer txoBuffer pendingMintPid txoBufferPid : Pubkey) :
    List AccountInfo :=
  [⟨(getBridgeStatePda p programId).1, false, true⟩, ⟨mintBuffer, false, true⟩,
    ⟨txoBuffer, false, true⟩, ⟨operator, true, false⟩, ⟨payer, true, true⟩,
    ⟨pendingMintPid, false, false⟩, ⟨txoBufferPid, false, false⟩]

def blockUpdate (p : Platform) (programId payer : Pubkey) (proof : CompactBridgeZKProof)
    (header : JsBridgeHeader) (operator mintBuffer txoBuffer : Pubkey)
    (mintBufferBump txoBufferBump : UInt8) (pendingMintPid txoBufferPid : Pubkey) :
    Except String Instruction := do
  let instructionData := proof.toList ++ encodePsyBridgeHeader header
  let headerBuffer ← createInstructionHeader 1 [mintBufferBump, txoBufferBump]
  pure
    { programId := programId
      accounts := updateAccounts p programId payer operator mintBuffer txoBuffer pendingMintPid
        txoBufferPid
      data := headerBuffer ++ instructionData }

def processReorgBlocks (p : Platform) (programId payer : Pubkey) (proof : CompactBridgeZKProof)
    (header : JsBridgeHeader) (extraBlocks : List FinalizedBlockMintTxoInfo)
    (operator mintBuffer txoBuffer : Pubkey) (mintBufferBump txoBufferBump : UInt8)
    (pendingMintPid txoBufferPid : Pubkey) : Except String Instruction := do
  let instructionData := proof.toList ++ encodePsyBridgeHeader header ++
    extraBlocks.flatMap encodeFinalizedBlockMintTxoInfo
  let headerBuffer ← createInstructionHeader 8 [mintBufferBump, txoBufferBump]
  pure
    { programId := programId
      accounts := updateAccounts p programId payer operator mintBuffer txoBuffer pendingMintPid
        txoBufferPid
      data := headerBuffer ++ instructionData }

section Decoding

def malformed : Failure BridgeFault := bridgeError .serializationError

theorem encodePsyBridgeStateCommitment_length (state : PsyBridgeStateCommitment) :
    (encodePsyBridgeStateCommitment state).length = 200 := by
  simp [encodePsyBridgeStateCommitment]

theorem encodePsyBridgeHeader_length (header : JsBridgeHeader) :
    (encodePsyBridgeHeader header).length = 448 := by
  simp [encodePsyBridgeHeader, encodePsyBridgeStateCommitment_length]

theorem header_read (header : JsBridgeHeader) : ∃ read b₁ b₂,
    encodePsyBridgeHeader header = PsyBridgeHeader.pod.encode read ++
      (FinalizedBlockMintTxoInfo.pod.encode b₁ ++ FinalizedBlockMintTxoInfo.pod.encode b₂) := by
  have hlen := encodePsyBridgeHeader_length header
  generalize encodePsyBridgeHeader header = bytes at hlen
  have hheader : PsyBridgeHeader.pod.size = 320 := rfl
  have hinfo : FinalizedBlockMintTxoInfo.pod.size = 64 := rfl
  refine ⟨PsyBridgeHeader.pod.decode (bytes.take 320),
    FinalizedBlockMintTxoInfo.pod.decode ((bytes.drop 320).take 64),
    FinalizedBlockMintTxoInfo.pod.decode ((bytes.drop 320).drop 64), ?_⟩
  rw [Pod.encode_decode, Pod.encode_decode, Pod.encode_decode, List.take_append_drop,
    List.take_append_drop]
  · simp [hlen, hinfo]
  · simp [hlen, hinfo]
  · simp [hlen, hheader]

theorem encodeFinalizedBlockMintTxoInfo_eq :
    encodeFinalizedBlockMintTxoInfo = FinalizedBlockMintTxoInfo.pod.encode := by
  funext info
  change _ = hashPod.encode _ ++ hashPod.encode _
  rw [Pod.bytes_encode, Pod.bytes_encode]
  rfl

theorem read_none {α : Type} {pod : Pod α} {data : Bytes} (h : data.length ≠ pod.size) :
    pod.read data = none := if_neg h

theorem unpack_initialize {arguments : Bytes}
    (h : arguments.length ≠ InitializeBridgeInstructionData.pod.size) :
    unpack (List.replicate 8 0 ++ arguments) = .error malformed := by
  have hread : InitializeBridgeInstructionData.pod.read arguments = none := read_none h
  simp [unpack, hread, orFail, malformed, ensure, bind, Except.bind]

theorem unpack_update {arguments : Bytes} {mintBump txoBump : UInt8}
    (h : arguments.length ≠ BlockUpdateFixedData.pod.size) :
    unpack (List.replicate 6 1 ++ [mintBump, txoBump] ++ arguments) = .error malformed := by
  have hread : BlockUpdateFixedData.pod.read arguments = none := read_none h
  simp [unpack, hread, orFail, malformed, ensure, bind, Except.bind]

variable (p : Platform) (programId payer operator feeSpender dogeMint mintBuffer txoBuffer
  pendingMintPid txoBufferPid : Pubkey) (params : JsInitializeBridgeParams)
  (proof : CompactBridgeZKProof) (header : JsBridgeHeader)
  (extraBlocks : List FinalizedBlockMintTxoInfo) (mintBump txoBump : UInt8)

theorem initializeBridge_rejected : ∃ i,
    initializeBridge p payer operator feeSpender dogeMint params programId = .ok i ∧
      unpack i.data = .error malformed := by
  refine ⟨_, rfl, unpack_initialize ?_⟩
  have hsize : InitializeBridgeInstructionData.pod.size = 544 := rfl
  rw [hsize]
  simp [encodePsyBridgeHeader_length, encodePsyReturnTxOutput, encodePsyBridgeConfig]

theorem blockUpdate_rejected : ∃ i,
    blockUpdate p programId payer proof header operator mintBuffer txoBuffer mintBump txoBump
        pendingMintPid txoBufferPid = .ok i ∧
      unpack i.data = .error malformed := by
  refine ⟨_, rfl, unpack_update ?_⟩
  have hsize : BlockUpdateFixedData.pod.size = 576 := rfl
  rw [hsize]
  simp [encodePsyBridgeHeader_length]

/-- A reorg is read with another header and with two entries more. -/
theorem processReorgBlocks_read : ∃ i read b₁ b₂,
    processReorgBlocks p programId payer proof header extraBlocks operator mintBuffer txoBuffer
        mintBump txoBump pendingMintPid txoBufferPid = .ok i ∧
      unpack i.data =
        .ok (.processReorgBlocks ⟨proof, read⟩ (b₁ :: b₂ :: extraBlocks) mintBump txoBump) := by
  obtain ⟨read, b₁, b₂, hread⟩ := header_read header
  refine ⟨_, read, b₁, b₂, rfl, ?_⟩
  have hfixed : BlockUpdateFixedData.pod.encode ⟨proof, read⟩ =
      proof.toList ++ PsyBridgeHeader.pod.encode read := by
    change (Pod.bytes 256).encode proof ++ PsyBridgeHeader.pod.encode read = _
    rw [Pod.bytes_encode]
  have hdata : List.replicate 6 8 ++ [mintBump, txoBump] ++ (proof.toList ++
      encodePsyBridgeHeader header ++ extraBlocks.flatMap encodeFinalizedBlockMintTxoInfo) =
      instructionData
        (.processReorgBlocks ⟨proof, read⟩ (b₁ :: b₂ :: extraBlocks) mintBump txoBump) := by
    simp only [instructionData, genAlignedInstructionWithBumps, hfixed, hread,
      encodeFinalizedBlockMintTxoInfo_eq, List.flatMap_cons, List.append_assoc]
  exact (congrArg unpack hdata).trans (unpack_instructionData _)

/-- The program reads the same out of the instruction of the JavaScript client and out of that of
the Rust client. -/
def ReadAlike (js : Except String Instruction) (rust : BridgeInstruction) : Prop :=
  ∃ i, js = .ok i ∧ unpack i.data = unpack (instructionData rust)

theorem not_alike_of_rejected {js : Except String Instruction} {rust : BridgeInstruction}
    (h : ∃ i, js = .ok i ∧ unpack i.data = .error malformed) : ¬ ReadAlike js rust := by
  obtain ⟨i, rfl, hi⟩ := h
  rintro ⟨j, hj, hread⟩
  cases hj
  rw [hi, unpack_instructionData] at hread
  cases hread

theorem reorg_not_alike (rust : BlockUpdateFixedData) :
    ¬ ReadAlike (processReorgBlocks p programId payer proof header extraBlocks operator mintBuffer
        txoBuffer mintBump txoBump pendingMintPid txoBufferPid)
      (.processReorgBlocks rust extraBlocks mintBump txoBump) := by
  obtain ⟨i, read, b₁, b₂, hi, hunpack⟩ := processReorgBlocks_read p programId payer operator
    mintBuffer txoBuffer pendingMintPid txoBufferPid proof header extraBlocks mintBump txoBump
  rintro ⟨j, hj, hread⟩
  rw [hi] at hj
  cases hj
  rw [hunpack, unpack_instructionData] at hread
  have hextra := congrArg List.length (BridgeInstruction.processReorgBlocks.inj
    (Except.ok.inj hread)).2.1
  rw [List.length_cons, List.length_cons] at hextra
  omega

/-- Whatever the values are, no instruction of the three is read as that of the Rust client:
the first two are rejected, and a reorg is read with two entries more. -/
theorem js_instructions_misread (rust : BlockUpdateFixedData)
    (rustParams : InitializeBridgeInstructionData) :
    (¬ ReadAlike (initializeBridge p payer operator feeSpender dogeMint params programId)
        (.initializeBridge rustParams)) ∧
    (¬ ReadAlike (blockUpdate p programId payer proof header operator mintBuffer txoBuffer
        mintBump txoBump pendingMintPid txoBufferPid) (.blockUpdate rust mintBump txoBump)) ∧
    (¬ ReadAlike (processReorgBlocks p programId payer proof header extraBlocks operator mintBuffer
        txoBuffer mintBump txoBump pendingMintPid txoBufferPid)
      (.processReorgBlocks rust extraBlocks mintBump txoBump)) := by
  refine ⟨not_alike_of_rejected ?_, not_alike_of_rejected ?_, ?_⟩
  · apply initializeBridge_rejected
  · apply blockUpdate_rejected
  · apply reorg_not_alike

end Decoding

/-- The two clients mean the same header. Only the Rust client knows the time of the tip. -/
structure SameHeader (js : JsBridgeHeader) (rust : PsyBridgeHeader) : Prop where
  blockHash : js.tipState.blockHash = rust.tipState.blockHash
  blockMerkleTreeRoot : js.tipState.blockMerkleTreeRoot = rust.tipState.blockMerkleTreeRoot
  blockHeight : js.tipState.blockHeight = rust.tipState.blockHeight
  finalizedState : js.finalizedState = rust.finalizedState
  bridgeStateHash : js.bridgeStateHash = rust.bridgeStateHash
  lastRollbackAtSecs : js.lastRollbackAtSecs = rust.lastRollbackAtSecs
  pausedUntilSecs : js.pausedUntilSecs = rust.pausedUntilSecs
  fees : js.totalFinalizedFeesCollectedChainHistory = rust.totalFinalizedFeesCollectedChainHistory

def zeroCommitment : PsyBridgeStateCommitment :=
  ⟨zeroBytes, zeroBytes, zeroBytes, zeroBytes, zeroBytes, zeroBytes, 0, 0⟩

def zeroJsHeader : JsBridgeHeader := ⟨zeroCommitment, zeroCommitment, zeroBytes, 0, 0, 0⟩

def zeroHeader : PsyBridgeHeader :=
  ⟨⟨zeroBytes, zeroBytes, 0, 0⟩, zeroCommitment, zeroBytes, 0, 0, 0⟩

/-- The header of a chain at its start, with a proof of zeros. -/
theorem zero_header_misread :
    SameHeader zeroJsHeader zeroHeader ∧
      ¬ ReadAlike (blockUpdate LocalCluster.platform DOGE_BRIDGE_PROGRAM_ID zeroBytes
          (Vector.replicate 256 0) zeroJsHeader zeroBytes zeroBytes zeroBytes 255 255 zeroBytes
          zeroBytes) (.blockUpdate ⟨Vector.replicate 256 0, zeroHeader⟩ 255 255) ∧
      ¬ ReadAlike (processReorgBlocks LocalCluster.platform DOGE_BRIDGE_PROGRAM_ID zeroBytes
          (Vector.replicate 256 0) zeroJsHeader [] zeroBytes zeroBytes zeroBytes 255 255 zeroBytes
          zeroBytes) (.processReorgBlocks ⟨Vector.replicate 256 0, zeroHeader⟩ [] 255 255) := by
  refine ⟨⟨rfl, rfl, rfl, rfl, rfl, rfl, rfl, rfl⟩, not_alike_of_rejected ?_, ?_⟩
  · apply blockUpdate_rejected
  · apply reorg_not_alike

end JsInstructions
