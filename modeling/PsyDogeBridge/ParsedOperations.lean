import PsyDogeBridge.HistorySync

/-! What the instructions of an operator's transaction ask of the two buffers. The parser of the
history client sorts these operations by their kind. -/
namespace ParsedOperations

open PodLayout SolanaRuntime BridgeData ClientRpc HistorySync

/-- What an instruction asks of a buffer. Only a `reinit` may name no buffer. -/
inductive Op where
  | reinit (buffer : Option Pubkey)
  | insert (buffer : Pubkey) (groupIdx : UInt16) (mints : List PendingMint)
  | setLen (buffer : Pubkey) (batchId size : UInt32)
  | write (buffer : Pubkey) (batchId offset : UInt32) (data : Bytes)
  deriving DecidableEq

def mintDataOps (buffer : Option Pubkey) (data : Bytes) : List Op :=
  (if data.head? = some 1 then [.reinit buffer] else []) ++
    if 3 ≤ data.length ∧ data.head? = some PM_TAG_INSERT then
      buffer.toList.map (.insert · (Pod.u16.decode (slice data 1 2)) (mintsOf (data.drop 3)))
    else []

def txoDataOps (buffer : Option Pubkey) (data : Bytes) : List Op :=
  (if 14 ≤ data.length ∧ data.head? = some TXO_TAG_SET_LEN then
      buffer.toList.map
        (.setLen · (Pod.u32.decode (slice data 6 4)) (Pod.u32.decode (slice data 1 4)))
    else []) ++
    if 9 ≤ data.length ∧ data.head? = some TXO_TAG_WRITE then
      buffer.toList.map
        (.write · (Pod.u32.decode (slice data 1 4)) (Pod.u32.decode (slice data 5 4)) (data.drop 9))
    else []

def opsOf (config : HistorySyncConfig) (accountKeys : List Pubkey) (ix : CompiledInstruction) :
    List Op :=
  match accountKeys[ix.programIdIndex.toNat]? with
  | none => []
  | some programId =>
    (if programId = config.pendingMintProgramId then
        mintDataOps (accountAt accountKeys ix.accounts 0) ix.data
      else []) ++
      if programId = config.txoBufferProgramId then
        txoDataOps (accountAt accountKeys ix.accounts 0) ix.data
      else []

section Parser

variable {config : HistorySyncConfig} {accountKeys : List Pubkey} {ix : CompiledInstruction}
  {parsed : ParsedOperatorTx}

def isUpdate (config : HistorySyncConfig) (accountKeys : List Pubkey) (ix : CompiledInstruction) :
    Bool :=
  decide (accountKeys[ix.programIdIndex.toNat]? = some config.programId) &&
    isBlockUpdateData ix.data

/-- The parser of the cache appends each operation to the list of its kind. -/
def grouped (parsed : ParsedOperatorTx) (ops : List Op) : ParsedOperatorTx :=
  ops.foldl (fun parsed op =>
    match op with
    | .reinit buffer => { parsed with mintReinits := parsed.mintReinits ++ buffer.toList }
    | .insert buffer groupIdx mints =>
      if mints = [] then parsed
      else { parsed with mintInserts := parsed.mintInserts ++ [(buffer, groupIdx, mints)] }
    | .setLen buffer batchId size =>
      { parsed with txoSetLens := parsed.txoSetLens ++ [(buffer, batchId, size)] }
    | .write buffer batchId offset data =>
      { parsed with txoWrites := parsed.txoWrites ++ [(buffer, batchId, offset, data)] }) parsed

theorem grouped_append (ops ops' : List Op) :
    grouped parsed (ops ++ ops') = grouped (grouped parsed ops) ops' :=
  List.foldl_append

theorem grouped_ite {c : Prop} [Decidable c] (ops : List Op) :
    grouped parsed (if c then ops else []) = if c then grouped parsed ops else parsed := by
  split <;> rfl

theorem parseMintInstruction_eq (buffer : Pubkey) (data : Bytes) :
    parseMintInstruction parsed buffer data = grouped parsed (mintDataOps (some buffer) data) := by
  rw [mintDataOps, grouped_append, grouped_ite, grouped_ite]
  rfl

theorem parseTxoInstruction_eq (buffer : Pubkey) (data : Bytes) :
    parseTxoInstruction parsed buffer data = grouped parsed (txoDataOps (some buffer) data) := by
  rw [txoDataOps, grouped_append, grouped_ite, grouped_ite]
  rfl

theorem grouped_unnamed (data : Bytes) : grouped parsed (mintDataOps none data) = parsed := by
  rw [mintDataOps, Option.toList_none, List.map_nil, ite_self, List.append_nil, grouped_ite]
  simp [grouped]

theorem parseOperatorInstruction_eq :
    parseOperatorInstruction config accountKeys parsed ix =
      grouped { parsed with
        isBlockUpdate := parsed.isBlockUpdate || isUpdate config accountKeys ix }
        (opsOf config accountKeys ix) := by
  unfold parseOperatorInstruction opsOf isUpdate
  cases accountKeys[ix.programIdIndex.toNat]? with
  | none => simp [grouped]
  | some programId =>
    have hupdate : (if programId = config.programId ∧ isBlockUpdateData ix.data = true then
        { parsed with isBlockUpdate := true } else parsed) = { parsed with
          isBlockUpdate := parsed.isBlockUpdate ||
            (decide (some programId = some config.programId) && isBlockUpdateData ix.data) } := by
      split
      · next h => simp [h]
      · next h =>
        have hno : (decide (some programId = some config.programId) &&
            isBlockUpdateData ix.data) = false := by simpa using h
        rw [hno, Bool.or_false]
    simp only [hupdate, grouped_append, grouped_ite]
    generalize ({ parsed with isBlockUpdate := _ } : ParsedOperatorTx) = parsed
    unfold parseBufferInstruction
    cases accountAt accountKeys ix.accounts 0 with
    | none =>
      rw [grouped_unnamed, ite_self]
      simp [txoDataOps, grouped]
    | some buffer => simp only [parseMintInstruction_eq, parseTxoInstruction_eq]

theorem grouped_update (ops : List Op) (slot : UInt64) (update : Bool) :
    grouped { parsed with slot := slot, isBlockUpdate := update } ops =
      { grouped parsed ops with slot := slot, isBlockUpdate := update } := by
  refine List.foldl_hom
    (fun p : ParsedOperatorTx => { p with slot := slot, isBlockUpdate := update }) ?_
  intro p op
  cases op with
  | insert => dsimp only; split <;> rfl
  | _ => rfl

theorem parseInstructions_eq (ixs : List CompiledInstruction) :
    ixs.foldl (parseOperatorInstruction config accountKeys) parsed =
      grouped { parsed with
        isBlockUpdate := parsed.isBlockUpdate || ixs.any (isUpdate config accountKeys) }
        (ixs.flatMap (opsOf config accountKeys)) := by
  induction ixs generalizing parsed with
  | nil =>
    rw [List.any_nil, Bool.or_false]
    rfl
  | cons ix ixs ih =>
    rw [List.foldl_cons, parseOperatorInstruction_eq, ih, List.flatMap_cons, grouped_append,
      grouped_update, grouped_update]
    simp only [List.any_cons, Bool.or_assoc, grouped_update]

end Parser

end ParsedOperations
