import PsyDogeBridge.BridgeProcessor

/-! The instruction data that the Rust client builds, and that the program reads it back. -/
namespace InstructionCodec

open PodLayout BridgeData MintGroups ProgramState BridgeProcessor

/-- The discriminator fills the bytes before the arguments, which start at byte 8. -/
def genAlignedInstruction (discriminator : UInt8) (dataStructBytes : Bytes) : Bytes :=
  List.replicate 8 discriminator ++ dataStructBytes

/-- The last two of the first eight bytes are the bumps. -/
def genAlignedInstructionWithBumps (discriminator : UInt8) (dataStructBytes : Bytes)
    (bump₁ bump₂ : UInt8) : Bytes :=
  List.replicate 6 discriminator ++ [bump₁, bump₂] ++ dataStructBytes

def mintGroupPayload (groupIndex : UInt16) (bump : UInt8) (shouldUnlock : Bool) : Bytes :=
  Pod.u16.encode groupIndex ++ [bump, if shouldUnlock then 1 else 0]

def instructionData : BridgeInstruction → Bytes
  | .initializeBridge params =>
    genAlignedInstruction 0 (InitializeBridgeInstructionData.pod.encode params)
  | .blockUpdate fixed mintBump txoBump =>
    genAlignedInstructionWithBumps 1 (BlockUpdateFixedData.pod.encode fixed) mintBump txoBump
  | .requestWithdrawal request =>
    genAlignedInstruction 2 (PsyWithdrawalRequest.pod.encode request)
  | .processWithdrawal params =>
    genAlignedInstruction 3 (ProcessWithdrawalInstructionData.pod.encode params)
  | .operatorWithdrawFees => genAlignedInstruction 4 []
  | .processManualDeposit params =>
    genAlignedInstruction 5 (ProcessManualDepositInstructionData.pod.encode params)
  | .replayWithdrawal => genAlignedInstruction 6 []
  | .processMintGroup groupIndex bump shouldUnlock =>
    genAlignedInstruction 7 (mintGroupPayload groupIndex bump shouldUnlock)
  | .processReorgBlocks fixed extra mintBump txoBump =>
    genAlignedInstructionWithBumps 8 (BlockUpdateFixedData.pod.encode fixed ++
      extra.flatMap FinalizedBlockMintTxoInfo.pod.encode) mintBump txoBump
  | .processMintGroupAutoAdvance groupIndex mintBump txoBump shouldUnlock =>
    genAlignedInstructionWithBumps 9 (mintGroupPayload groupIndex mintBump shouldUnlock) mintBump
      txoBump
  | .snapshotWithdrawals => genAlignedInstruction 10 []

theorem reorgBlockUpdateReader_encode (fixed : BlockUpdateFixedData)
    (extra : List FinalizedBlockMintTxoInfo) :
    reorgBlockUpdateReader (BlockUpdateFixedData.pod.encode fixed ++
      extra.flatMap FinalizedBlockMintTxoInfo.pod.encode) = some (fixed, extra) := by
  have hf := BlockUpdateFixedData.pod.encode_length fixed
  have hs : FinalizedBlockMintTxoInfo.pod.size = 64 := rfl
  have hx : (extra.flatMap FinalizedBlockMintTxoInfo.pod.encode).length = extra.length * 64 := by
    simp [List.length_flatMap, hs]
  have hlen : (BlockUpdateFixedData.pod.encode fixed ++
      extra.flatMap FinalizedBlockMintTxoInfo.pod.encode).length =
      BlockUpdateFixedData.pod.size + extra.length * 64 := by
    rw [List.length_append, hf, hx]
  have hitems : (BlockUpdateFixedData.pod.size +
      extra.length * 64 - BlockUpdateFixedData.pod.size) /
      FinalizedBlockMintTxoInfo.pod.size = extra.length := by
    rw [hs]
    omega
  have hmap : ((List.range extra.length).map fun i => FinalizedBlockMintTxoInfo.pod.decode
      (slice (BlockUpdateFixedData.pod.encode fixed ++
        extra.flatMap FinalizedBlockMintTxoInfo.pod.encode)
        (BlockUpdateFixedData.pod.size + i * FinalizedBlockMintTxoInfo.pod.size)
        FinalizedBlockMintTxoInfo.pod.size)) = extra := by
    apply List.ext_getElem
    · simp
    · intro i h₁ h₂
      have hb := Pod.block_flatMap FinalizedBlockMintTxoInfo.pod extra i h₂
      rw [Pod.block] at hb
      rw [List.getElem_map, List.getElem_range, slice, ← List.drop_drop, List.drop_left' hf, hb,
        Pod.decode_encode]
  simp only [reorgBlockUpdateReader, hlen, hitems, hmap, List.take_left' hf, Pod.decode_encode]
  rw [if_neg (by omega)]

theorem take_mintGroupPayload (g : UInt16) (bump : UInt8) (unlock : Bool) :
    (mintGroupPayload g bump unlock).take 2 = Pod.u16.encode g :=
  List.take_left' (Pod.u16.encode_length g)

theorem mintGroupPayload_length (g : UInt16) (bump : UInt8) (unlock : Bool) :
    (mintGroupPayload g bump unlock).length = 4 := by
  simp [mintGroupPayload]

theorem mintGroupPayload_bump {g : UInt16} {bump : UInt8} {unlock : Bool}
    (h : 2 < (mintGroupPayload g bump unlock).length) :
    (mintGroupPayload g bump unlock)[2] = bump := by
  simp [mintGroupPayload]

theorem mintGroupPayload_unlock {g : UInt16} {bump : UInt8} {unlock : Bool}
    (h : 3 < (mintGroupPayload g bump unlock).length) :
    (mintGroupPayload g bump unlock)[3] = if unlock then 1 else 0 := by
  simp [mintGroupPayload]

theorem unpack_instructionData (ix : BridgeInstruction) :
    unpack (instructionData ix) = .ok ix := by
  cases ix with
  | initializeBridge params => simp [unpack, instructionData, genAlignedInstruction]
  | blockUpdate fixed b₁ b₂ => simp [unpack, instructionData, genAlignedInstructionWithBumps]
  | requestWithdrawal request => simp [unpack, instructionData, genAlignedInstruction]
  | processWithdrawal params => simp [unpack, instructionData, genAlignedInstruction]
  | operatorWithdrawFees => simp [unpack, instructionData, genAlignedInstruction]
  | processManualDeposit params => simp [unpack, instructionData, genAlignedInstruction]
  | replayWithdrawal => simp [unpack, instructionData, genAlignedInstruction]
  | processMintGroup g bump unlock =>
    cases unlock <;> simp [unpack, instructionData, genAlignedInstruction, take_mintGroupPayload,
      mintGroupPayload_length, mintGroupPayload_bump, mintGroupPayload_unlock]
  | processReorgBlocks fixed extra b₁ b₂ =>
    simp [unpack, instructionData, genAlignedInstructionWithBumps, reorgBlockUpdateReader_encode]
  | processMintGroupAutoAdvance g b₁ b₂ unlock =>
    cases unlock <;> simp [unpack, instructionData, genAlignedInstructionWithBumps,
      take_mintGroupPayload, mintGroupPayload_length, mintGroupPayload_bump,
      mintGroupPayload_unlock]
  | snapshotWithdrawals => simp [unpack, instructionData, genAlignedInstruction]

end InstructionCodec
