import Mathlib.Data.List.AList
import PsyDogeBridge.BridgeMonitor

/-! The history client: what it reads from the transactions of the bridge and of the operator,
and how it rebuilds the contents of the buffers from the operator's transactions. -/
namespace HistorySync

open PodLayout SolanaRuntime BridgeData MintGroups BridgeProcessor ClientRpc BridgeMonitor

structure BlockRecord where
  blockHeight : UInt32
  signature : Signature
  slot : UInt64
  blockTime : Option ℤ
  txoIndices : List UInt32
  pendingMints : List PendingMint
  isReorg : Bool
  extraFinalizedBlocks : List FinalizedBlockMintTxoInfo
  deriving DecidableEq

structure WithdrawalRequestRecord where
  signature : Signature
  slot : UInt64
  blockTime : Option ℤ
  amountSats : UInt64
  recipientAddress : Vector UInt8 20
  addressType : UInt32
  userPubkey : Pubkey
  deriving DecidableEq

structure ProcessedWithdrawalRecord where
  signature : Signature
  slot : UInt64
  blockTime : Option ℤ
  returnOutputSighash : QHash256
  returnOutputIndex : UInt64
  returnOutputAmount : UInt64
  spentTxoTreeRoot : QHash256
  nextProcessedWithdrawalsIndex : UInt64
  deriving DecidableEq

structure ManualDepositRecord where
  signature : Signature
  slot : UInt64
  blockTime : Option ℤ
  txHash : QHash256
  combinedTxoIndex : UInt64
  depositAmountSats : UInt64
  depositorPubkey : Vector UInt8 32
  deriving DecidableEq

inductive HistoryRecord where
  | block (r : BlockRecord)
  | withdrawalRequest (r : WithdrawalRequestRecord)
  | processedWithdrawal (r : ProcessedWithdrawalRecord)
  | manualDeposit (r : ManualDepositRecord)
  deriving DecidableEq

structure HistorySyncConfig where
  programId : Pubkey
  pendingMintProgramId : Pubkey
  txoBufferProgramId : Pubkey
  includeWithdrawals : Bool
  includeManualDeposits : Bool

def HistorySyncConfig.new (programId pendingMintProgramId txoBufferProgramId : Pubkey) :
    HistorySyncConfig :=
  ⟨programId, pendingMintProgramId, txoBufferProgramId, true, true⟩

/-- `chunks_exact`: the whole pieces of `size` bytes. -/
def chunksExact (size : ℕ) (l : Bytes) : List Bytes :=
  (List.range (l.length / size)).map fun i => slice l (i * size) size

section Instructions

variable (accountKeys : List Pubkey)

def accountAt (accounts : Bytes) (i : ℕ) : Option Pubkey :=
  accounts[i]?.bind fun k => accountKeys[k.toNat]?

structure BlockUpdateInfo where
  blockHeight : UInt32
  isReorg : Bool
  extraFinalizedBlocks : List FinalizedBlockMintTxoInfo
  mintBuffer : Option Pubkey
  txoBuffer : Option Pubkey
  operator : Option Pubkey

def readBlockUpdate (ixData accounts : Bytes) (isReorg : Bool) : Option BlockUpdateInfo :=
  (arguments ixData BlockUpdateFixedData.pod).map fun fixed =>
    { blockHeight := fixed.header.finalizedState.blockHeight
      isReorg := isReorg
      extraFinalizedBlocks :=
        if isReorg then
          (chunksExact FinalizedBlockMintTxoInfo.pod.size
            (ixData.drop (8 + BlockUpdateFixedData.pod.size))).map
            FinalizedBlockMintTxoInfo.pod.decode
        else []
      mintBuffer := accountAt accountKeys accounts 1
      txoBuffer := accountAt accountKeys accounts 2
      operator := accountAt accountKeys accounts 3 }

end Instructions

/-- How a call of the client ends without a result. -/
inductive Fault where
  | failed (e : ClientRpc.BridgeError)
  | panicked
  deriving DecidableEq

/-- What `process_transaction` reads from an instruction: a block update, whose buffers are still
to be rebuilt, or a record. -/
inductive Reading where
  | update (info : BlockUpdateInfo)
  | record (r : HistoryRecord)

section Records

variable (signature : Signature) (slot : UInt64) (blockTime : Option ℤ)
  (accountKeys : List Pubkey) (config : HistorySyncConfig)

def BlockUpdateInfo.toBlockRecord (info : BlockUpdateInfo) (pendingMints : List PendingMint)
    (txoIndices : List UInt32) : BlockRecord :=
  ⟨info.blockHeight, signature, slot, blockTime, txoIndices, pendingMints, info.isReorg,
    info.extraFinalizedBlocks⟩

/-- `unwrap_or`: a panic goes through. -/
def unwrapOr {α : Type} (default : α) : Except Fault α → Except Fault α
  | .error (.failed _) => .ok default
  | result => result

/-- The second half of `parse_block_update`. `reconstruct` is given the operator, the mint buffer,
the output buffer and the slot. -/
def rebuild (reconstruct : Pubkey → Pubkey → Pubkey → UInt64 →
    Except Fault (List PendingMint × List UInt32)) : Reading → Except Fault HistoryRecord
  | .record r => pure r
  | .update info =>
    let found : Except Fault (List PendingMint × List UInt32) :=
      match info.operator, info.mintBuffer, info.txoBuffer with
      | some op, some mintBuffer, some txoBuffer =>
        unwrapOr ([], []) (reconstruct op mintBuffer txoBuffer slot)
      | _, _, _ => .ok ([], [])
    found.map fun (pendingMints, txoIndices) =>
      .block (info.toBlockRecord signature slot blockTime pendingMints txoIndices)

def requestRecord (accounts : Bytes) (request : PsyWithdrawalRequest) : HistoryRecord :=
  .withdrawalRequest ⟨signature, slot, blockTime, request.amountSats, request.recipientAddress,
    request.addressType, firstAccount accounts accountKeys⟩

def processedRecord (data : ProcessWithdrawalInstructionData) : HistoryRecord :=
  .processedWithdrawal ⟨signature, slot, blockTime, data.newReturnOutput.sighash,
    data.newReturnOutput.outputIndex, data.newReturnOutput.amountSats, data.newSpentTxoTreeRoot,
    data.newNextProcessedWithdrawalsIndex⟩

def depositRecord (data : ProcessManualDepositInstructionData) : HistoryRecord :=
  .manualDeposit ⟨signature, slot, blockTime, data.txHash, data.combinedTxoIndex,
    data.depositAmountSats, data.depositorSolanaPublicKey⟩

def parseWithdrawalRequest (ixData accounts : Bytes) : Option HistoryRecord :=
  (arguments ixData PsyWithdrawalRequest.pod).map
    (requestRecord signature slot blockTime accountKeys accounts)

def parseProcessedWithdrawal (ixData : Bytes) : Option HistoryRecord :=
  (arguments ixData ProcessWithdrawalInstructionData.pod).map
    (processedRecord signature slot blockTime)

def parseManualDeposit (ixData : Bytes) : Option HistoryRecord :=
  (arguments ixData ProcessManualDepositInstructionData.pod).map
    (depositRecord signature slot blockTime)

/-- What is read if the discriminator is `kind`: `none` goes on with the next instruction, `some r`
returns `r`. -/
def readAt (ix : CompiledInstruction) : ℕ → Option (Option Reading)
  | 1 => some ((readBlockUpdate accountKeys ix.data ix.accounts false).map .update)
  | 8 => some ((readBlockUpdate accountKeys ix.data ix.accounts true).map .update)
  | 2 =>
    if config.includeWithdrawals then
      some ((parseWithdrawalRequest signature slot blockTime accountKeys ix.data ix.accounts).map
        .record)
    else none
  | 3 =>
    if config.includeWithdrawals then
      some ((parseProcessedWithdrawal signature slot blockTime ix.data).map .record)
    else none
  | 5 =>
    if config.includeManualDeposits then
      some ((parseManualDeposit signature slot blockTime ix.data).map .record)
    else none
  | _ => none

/-- The body of the loop of `process_transaction`. -/
def processInstruction (ix : CompiledInstruction) : Option (Option Reading) :=
  if accountKeys[ix.programIdIndex.toNat]? ≠ some config.programId then none
  else if ix.data.length < 5 then none
  else readAt signature slot blockTime accountKeys config ix (ix.data.getD 4 0).toNat

end Records

structure ParsedOperatorTx where
  slot : UInt64
  isBlockUpdate : Bool
  mintInserts : List (Pubkey × UInt16 × List PendingMint)
  txoSetLens : List (Pubkey × UInt32 × UInt32)
  txoWrites : List (Pubkey × UInt32 × UInt32 × Bytes)
  mintReinits : List Pubkey

def PM_TAG_INSERT : UInt8 := 3
def TXO_TAG_WRITE : UInt8 := 2
def TXO_TAG_SET_LEN : UInt8 := 1

def isBlockUpdateData (data : Bytes) : Bool :=
  decide (5 ≤ data.length) && (data.getD 4 0 == 1 || data.getD 4 0 == 8)

def mintsOf (mintData : Bytes) : List PendingMint :=
  (chunksExact PM_DA_PENDING_MINT_SIZE mintData).map PendingMint.pod.decode

def parseMintInstruction (parsed : ParsedOperatorTx) (buffer : Pubkey) (data : Bytes) :
    ParsedOperatorTx :=
  let parsed :=
    if data.head? = some 1 then
      { parsed with mintReinits := parsed.mintReinits ++ [buffer] }
    else parsed
  if 3 ≤ data.length ∧ data.head? = some PM_TAG_INSERT then
    let mints := mintsOf (data.drop 3)
    if mints = [] then parsed
    else
      { parsed with mintInserts :=
          parsed.mintInserts ++ [(buffer, Pod.u16.decode (slice data 1 2), mints)] }
  else parsed

def parseTxoInstruction (parsed : ParsedOperatorTx) (buffer : Pubkey) (data : Bytes) :
    ParsedOperatorTx :=
  let parsed :=
    if 14 ≤ data.length ∧ data.head? = some TXO_TAG_SET_LEN then
      { parsed with txoSetLens := parsed.txoSetLens ++
          [(buffer, Pod.u32.decode (slice data 6 4), Pod.u32.decode (slice data 1 4))] }
    else parsed
  if 9 ≤ data.length ∧ data.head? = some TXO_TAG_WRITE then
    { parsed with txoWrites := parsed.txoWrites ++
        [(buffer, Pod.u32.decode (slice data 1 4), Pod.u32.decode (slice data 5 4),
          data.drop 9)] }
  else parsed

/-- An instruction of a buffer program whose buffer is not found is passed over. -/
def parseBufferInstruction (config : HistorySyncConfig) (accountKeys : List Pubkey)
    (programId : Pubkey) (ix : CompiledInstruction) (parsed : ParsedOperatorTx) :
    ParsedOperatorTx :=
  match accountAt accountKeys ix.accounts 0 with
  | none => parsed
  | some buffer =>
    let parsed :=
      if programId = config.pendingMintProgramId then parseMintInstruction parsed buffer ix.data
      else parsed
    if programId = config.txoBufferProgramId then parseTxoInstruction parsed buffer ix.data
    else parsed

def parseOperatorInstruction (config : HistorySyncConfig) (accountKeys : List Pubkey)
    (parsed : ParsedOperatorTx) (ix : CompiledInstruction) : ParsedOperatorTx :=
  match accountKeys[ix.programIdIndex.toNat]? with
  | none => parsed
  | some programId =>
    parseBufferInstruction config accountKeys programId ix
      (if programId = config.programId ∧ isBlockUpdateData ix.data = true then
        { parsed with isBlockUpdate := true }
      else parsed)

def parseOperatorTx (config : HistorySyncConfig) (slot : UInt64)
    (transaction : VersionedTransaction) : ParsedOperatorTx :=
  transaction.message.instructions.foldl
    (parseOperatorInstruction config transaction.message.staticAccountKeys)
    ⟨slot, false, [], [], [], []⟩

structure Scan where
  pendingMints : AList fun _ : UInt16 => List PendingMint
  txoWrites : AList fun _ : UInt32 => Bytes
  txoDataSize : UInt32
  txoBatchId : Option UInt32
  foundBlockUpdate : Bool

def Scan.start : Scan := ⟨∅, ∅, 0, none, false⟩

def scanReinits (mintBuffer : Pubkey) : Scan → List Pubkey → Scan
  | s, [] => s
  | s, buffer :: rest =>
    if buffer = mintBuffer then
      if s.foundBlockUpdate then s
      else scanReinits mintBuffer { s with pendingMints := ∅ } rest
    else scanReinits mintBuffer s rest

def scanInsert (mintBuffer : Pubkey) (s : Scan) (insert : Pubkey × UInt16 × List PendingMint) :
    Scan :=
  if insert.1 = mintBuffer then
    { s with pendingMints := s.pendingMints.insert insert.2.1 insert.2.2 }
  else s

def scanSetLens (txoBuffer : Pubkey) : Scan → List (Pubkey × UInt32 × UInt32) → Scan
  | s, [] => s
  | s, (buffer, batchId, size) :: rest =>
    if buffer = txoBuffer then
      match s.txoBatchId with
      | none =>
        scanSetLens txoBuffer { s with txoBatchId := some batchId, txoDataSize := size } rest
      | some current =>
        if current = batchId then scanSetLens txoBuffer { s with txoDataSize := size } rest
        else if s.foundBlockUpdate then s
        else scanSetLens txoBuffer
          { s with txoWrites := ∅, txoBatchId := some batchId, txoDataSize := size } rest
    else scanSetLens txoBuffer s rest

def scanWrite (txoBuffer : Pubkey) (s : Scan) (write : Pubkey × UInt32 × UInt32 × Bytes) : Scan :=
  if write.1 = txoBuffer ∧ (s.txoBatchId = none ∨ s.txoBatchId = some write.2.1) then
    { s with
      txoBatchId := some write.2.1
      txoWrites := s.txoWrites.insert write.2.2.1 write.2.2.2 }
  else s

def scanBuffers (mintBuffer txoBuffer : Pubkey) (s : Scan) (tx : ParsedOperatorTx) : Scan :=
  let s := scanReinits mintBuffer s tx.mintReinits
  let s := tx.mintInserts.foldl (scanInsert mintBuffer) s
  let s := scanSetLens txoBuffer s tx.txoSetLens
  tx.txoWrites.foldl (scanWrite txoBuffer) s

def scanTransactions (mintBuffer txoBuffer : Pubkey) : Scan → List ParsedOperatorTx → Scan
  | s, [] => s
  | s, tx :: rest =>
    if tx.isBlockUpdate = true ∧ s.foundBlockUpdate = true then s
    else
      scanTransactions mintBuffer txoBuffer
        (scanBuffers mintBuffer txoBuffer
          { s with foundBlockUpdate := s.foundBlockUpdate || tx.isBlockUpdate } tx) rest

def assembleMints (pendingMints : AList fun _ : UInt16 => List PendingMint) : List PendingMint :=
  (pendingMints.keys.mergeSort fun a b => decide (a ≤ b)).flatMap fun k =>
    (pendingMints.lookup k).getD []

abbrev Write := Sigma fun _ : UInt32 => Bytes

/-- One round of the loop over the writes. `end - start` underflows, and the slice panics, if the
write starts after the end. -/
def copyWrite (rawData : Bytes) (write : Write) : Option Bytes :=
  let start := write.1.toNat
  let stop := min (start + write.2.length) rawData.length
  if stop < start then none
  else if 0 < stop - start then some (splice rawData start (write.2.take (stop - start)))
  else some rawData

/-- The writes come in the order in which the hash map has them. -/
def assembleTxoIndices (order : List Write → List Write)
    (writes : AList fun _ : UInt32 => Bytes) (expectedSize : UInt32) : Option (List UInt32) :=
  if writes.entries = [] ∨ expectedSize = 0 then some []
  else
    ((order writes.entries).foldlM copyWrite (List.replicate expectedSize.toNat 0)).map
      fun rawData => (chunksExact 4 rawData).map Pod.u32.decode

/-- `none` is a panic. -/
def reconstructBuffersFromCache (order : List Write → List Write)
    (cache : List ParsedOperatorTx) (mintBuffer txoBuffer : Pubkey) (blockUpdateSlot : UInt64) :
    Option (List PendingMint × List UInt32) :=
  let s := scanTransactions mintBuffer txoBuffer .start
    (cache.filter fun tx => decide (tx.slot ≤ blockUpdateSlot))
  (assembleTxoIndices order s.txoWrites s.txoDataSize).map (assembleMints s.pendingMints, ·)

end HistorySync
