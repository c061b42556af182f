import PsyDogeBridge.BufferSteps
import PsyDogeBridge.BridgeCalls

/-! The output buffer program, and what its instructions do to the data of a buffer. -/
namespace TxoBuffer

open PodLayout CheckedSteps SolanaRuntime BridgeData BridgeCalls
open PendingMintBuffer (BufferResult requireSigner reallocAccount MAX_PERMITTED_DATA_INCREASE)
open BufferSteps (resized resized_length resized_append)

abbrev HEADER_SIZE : ℕ := 48

abbrev Header := PendingMintsTxoBufferHeader

def handleBatchTransition (h : Header) (inputBatchId : UInt32) : BufferResult Header :=
  if inputBatchId = h.batchId then do
    ensure (h.finalizedStatus ≠ 1) (.program .accountAlreadyInitialized)
    pure h
  else if inputBatchId = h.batchId + 1 then
    pure { h with batchId := inputBatchId, finalizedStatus := 0 }
  else .error (.program .invalidArgument)

def updateHeader (data : Bytes) (f : Header → BufferResult Header) : BufferResult Bytes := do
  ensure (HEADER_SIZE ≤ data.length) .panic
  let h ← f (txoBufferHeader data)
  pure (splice data 0 (PendingMintsTxoBufferHeader.pod.encode h))

/-- What `SetDataLength` does to the header before the account is resized. The height of an
earlier batch does not matter. -/
def tagBatch (signer : Pubkey) (inputBatchId inputDogeHeight : UInt32) (finalize : Bool)
    (h : Header) : BufferResult Header := do
  ensure (h.authorizedWriter = signer) (.program .illegalOwner)
  let isNewBatch := inputBatchId = h.batchId + 1
  let h ← handleBatchTransition h inputBatchId
  ensure (isNewBatch ∨ h.dogeBlockHeight = 0 ∨ h.dogeBlockHeight = inputDogeHeight)
    (.program .invalidInstructionData)
  pure { h with
    dogeBlockHeight := inputDogeHeight
    finalizedStatus := if finalize then 1 else h.finalizedStatus }

section Instructions

variable (p : Platform) (inv : Invocation) (l : Ledger)

def allocateIfEmpty (k : Pubkey) : BufferResult Ledger :=
  if (l k).data.length = 0 then do
    ensure (inv.fundsSuffice = true) (.program .insufficientFunds)
    createDerived inv l k HEADER_SIZE
  else pure l

def processInitialize (contract : AccountInfo) (rest : Bytes) : BufferResult Ledger := do
  ensure (rest.length = 32) (.program .invalidInstructionData)
  let authKey := hashPod.decode rest
  let expectedPda := (p.findProgramAddress [TXO_BUFFER_SEED, authKey.toList] inv.programId).1
  ensure (contract.key = expectedPda) (.program .invalidSeeds)
  let l ← allocateIfEmpty inv l contract.key
  ensure ((l contract.key).owner = inv.programId) (.program .incorrectProgramId)
  ensure (HEADER_SIZE ≤ (l contract.key).data.length) (.program .accountDataTooSmall)
  let data ← updateHeader (l contract.key).data fun h =>
    pure { h with authorizedWriter := authKey, initStatus := 1 }
  writeData inv l contract.key data

/-- An account grows by a bounded number of bytes in one instruction. -/
def resizeTo (k payer : Pubkey) (newSize : ℕ) : BufferResult Ledger := do
  let l' ← reallocAccount inv l k payer newSize true
  ensure (newSize ≤ (l k).data.length + MAX_PERMITTED_DATA_INCREASE) (.program .invalidRealloc)
  pure l'

def fitTo (resize : Bool) (k payer : Pubkey) (newSize : ℕ) : BufferResult Ledger :=
  if resize then resizeTo inv l k payer newSize
  else do
    ensure (newSize ≤ (l k).data.length) (.program .accountDataTooSmall)
    pure l

def processSetDataLength (contract : AccountInfo) (accounts : List AccountInfo) (rest : Bytes) :
    BufferResult Ledger := do
  ensure ((l contract.key).owner = inv.programId) (.program .incorrectProgramId)
  ensure (rest.length = 14) (.program .invalidInstructionData)
  let newLength := Pod.u32.decode (slice rest 0 4)
  let resize := rest.getD 4 0 ≠ 0
  let inputBatchId := Pod.u32.decode (slice rest 5 4)
  let inputDogeHeight := Pod.u32.decode (slice rest 9 4)
  let finalize := rest.getD 13 0 ≠ 0
  let (signer, accounts) ← nextAccountInfo accounts
  let _ ← nextAccountInfo accounts
  requireSigner signer
  let data ← updateHeader (l contract.key).data
    (tagBatch signer.key inputBatchId inputDogeHeight finalize)
  let l ← writeData inv l contract.key data
  let l ← fitTo inv l resize contract.key signer.key (HEADER_SIZE + newLength.toNat)
  let data ← updateHeader (l contract.key).data fun h => pure { h with dataSize := newLength }
  writeData inv l contract.key data

def processWriteData (contract : AccountInfo) (accounts : List AccountInfo) (rest : Bytes) :
    BufferResult Ledger := do
  ensure ((l contract.key).owner = inv.programId) (.program .incorrectProgramId)
  ensure (8 ≤ rest.length) (.program .invalidInstructionData)
  let inputBatchId := Pod.u32.decode (slice rest 0 4)
  let offset := Pod.u32.decode (slice rest 4 4)
  let rawData := rest.drop 8
  let (signer, _) ← nextAccountInfo accounts
  requireSigner signer
  ensure (HEADER_SIZE ≤ (l contract.key).data.length) .panic
  let header := txoBufferHeader (l contract.key).data
  ensure (header.authorizedWriter = signer.key) (.program .illegalOwner)
  let header ← handleBatchTransition header inputBatchId
  let writeEnd := offset.toNat + rawData.length
  ensure (HEADER_SIZE + writeEnd ≤ (l contract.key).data.length) (.program .accountDataTooSmall)
  let header :=
    if header.dataSize.toNat < writeEnd then { header with dataSize := UInt32.ofNat writeEnd }
    else header
  let data := splice (l contract.key).data 0 (PendingMintsTxoBufferHeader.pod.encode header)
  writeData inv l contract.key (splice data (HEADER_SIZE + offset.toNat) rawData)

def processInstruction (instructionData : Bytes) : BufferResult Ledger :=
  match instructionData with
  | [] => .error (.program .invalidInstructionData)
  | tag :: rest => do
    let (contract, accounts) ← nextAccountInfo inv.accounts
    match tag.toNat with
    | 0 => processInitialize p inv l contract rest
    | 1 => processSetDataLength inv l contract accounts rest
    | 2 => processWriteData inv l contract accounts rest
    | _ => .error (.program .invalidInstructionData)

end Instructions

inductive TxoOp where
  | setup
  | setLen (batchId newLength : UInt32)
  | write (batchId offset : UInt32) (rawData : Bytes)
  deriving DecidableEq

def TxoOp.ofTag : ℕ → Bytes → Option TxoOp
  | 0, _ => some .setup
  | 1, rest =>
    if 13 ≤ rest.length then
      some (.setLen (Pod.u32.decode (slice rest 5 4)) (Pod.u32.decode (slice rest 0 4)))
    else none
  | 2, rest =>
    if 8 ≤ rest.length then
      some (.write (Pod.u32.decode (slice rest 0 4)) (Pod.u32.decode (slice rest 4 4))
        (rest.drop 8))
    else none
  | _, _ => none

def TxoOp.ofData : Bytes → Option TxoOp
  | [] => none
  | tag :: rest => TxoOp.ofTag tag.toNat rest

section Contents

variable {p : Platform} {inv : Invocation} {l l' : Ledger} {k : Pubkey} {d d' body : Bytes}
  {h h' : Header} {n : ℕ}

def dataSizeOf (d : Bytes) : ℕ := (txoBufferHeader d).dataSize.toNat

def withHeader (d : Bytes) (h : Header) : Bytes :=
  splice d 0 (PendingMintsTxoBufferHeader.pod.encode h)

def contents (h : Header) (body : Bytes) : Bytes :=
  PendingMintsTxoBufferHeader.pod.encode h ++ body

theorem header_length (h : Header) : (PendingMintsTxoBufferHeader.pod.encode h).length = 48 :=
  Pod.encode_length _ _

theorem contents_length : (contents h body).length = 48 + body.length := by
  rw [contents, List.length_append, header_length]

theorem contents_header : txoBufferHeader (contents h body) = h := by
  rw [txoBufferHeader, contents, slice_append_left (header_length h), Pod.decode_encode]

theorem contents_drop : (contents h body).drop 48 = body := List.drop_left' (header_length h)

theorem eq_contents (hd : 48 ≤ d.length) :
    d = contents (txoBufferHeader d) (d.drop 48) := by
  have hheader : PendingMintsTxoBufferHeader.pod.encode (txoBufferHeader d) = slice d 0 48 :=
    PendingMintsTxoBufferHeader.pod.encode_decode _ (slice_length hd)
  rw [contents, hheader, slice, List.drop_zero, List.take_append_drop]

theorem withHeader_contents : withHeader (contents h body) h' = contents h' body := by
  rw [withHeader, splice, List.take_zero, List.nil_append, header_length, Nat.zero_add,
    contents_drop, contents]

theorem resized_contents : resized (contents h body) (48 + n) = contents h (resized body n) := by
  rw [contents, contents, ← header_length h, resized_append]

theorem splice_contents {off : ℕ} {x : Bytes} :
    splice (contents h body) (48 + off) x = contents h (splice body off x) := by
  rw [contents, contents, ← header_length h, splice_append]

theorem contents_getElem? (i : ℕ) : (contents h body)[HEADER_SIZE + i]? = body[i]? := by
  have hle : (PendingMintsTxoBufferHeader.pod.encode h).length ≤ HEADER_SIZE + i :=
    (header_length h).trans_le (Nat.le_add_right _ _)
  rw [contents, List.getElem?_append_right hle, header_length, Nat.add_sub_cancel_left]

theorem dataSizeOf_contents : dataSizeOf (contents h body) = h.dataSize.toNat := by
  rw [dataSizeOf, contents_header]

theorem resized_getElem? {i : ℕ} (hn : i < n) (hd : i < d.length) :
    (resized d n)[i]? = d[i]? := by
  rw [resized, List.getElem?_append_left (by simp; omega), List.getElem?_take_of_lt hn]

theorem exists_contents (hd : HEADER_SIZE ≤ d.length) : ∃ h body, d = contents h body :=
  ⟨_, _, eq_contents hd⟩

def reached (h : Header) (writeEnd : ℕ) : Header :=
  if h.dataSize.toNat < writeEnd then { h with dataSize := UInt32.ofNat writeEnd } else h

def initialHeader (writer : Pubkey) : Header := ⟨writer, 1, 0, 0, 0, 0⟩

/-- What an accepted instruction does to the data of a buffer. -/
inductive Move : TxoOp → Bytes → Bytes → Prop where
  | create (writer : Pubkey) : Move .setup [] (contents (initialHeader writer) [])
  | assign {h : Header} {body : Bytes} (writer : Pubkey) :
      Move .setup (contents h body)
        (contents { h with authorizedWriter := writer, initStatus := 1 } body)
  | setLen {h h₁ : Header} {body : Bytes} {signer : Pubkey} {batchId height n : UInt32}
      {finalize : Bool} (resize : Bool)
      (tag : tagBatch signer batchId height finalize h = .ok h₁)
      (fits : resize = false → n.toNat ≤ body.length) :
      Move (.setLen batchId n) (contents h body) (contents { h₁ with dataSize := n }
        (if resize then resized body n.toNat else body))
  | write {h h₁ : Header} {body : Bytes} {batchId offset : UInt32} {x : Bytes}
      (batch : handleBatchTransition h batchId = .ok h₁)
      (fits : offset.toNat + x.length ≤ body.length) :
      Move (.write batchId offset x) (contents h body)
        (contents (reached h₁ (offset.toNat + x.length)) (splice body offset.toNat x))

structure Operates (op : TxoOp) (l l' : Ledger) (k : Pubkey) : Prop where
  elsewhere : ∀ j, j ≠ k → l' j = l j
  moves : Move op (l k).data (l' k).data

variable {rest : Bytes} {contract : AccountInfo} {accounts : List AccountInfo}

theorem updateHeader_ok {f : Header → BufferResult Header} :
    updateHeader d f = .ok d' ↔
      HEADER_SIZE ≤ d.length ∧ ∃ h, f (txoBufferHeader d) = .ok h ∧ d' = withHeader d h := by
  simp only [updateHeader, bind_ok, ensure_ok, pure_ok, exists_const, withHeader, eq_comm (a := d')]

theorem setData_data : (l.setData k d k).data = d := by
  simp [Ledger.setData]

theorem setData_elsewhere {j : Pubkey} (hj : j ≠ k) : l.setData k d j = l j :=
  Function.update_of_ne hj _ _

theorem processInitialize_operates (hok : processInitialize p inv l contract rest = .ok l') :
    Operates .setup l l' contract.key := by
  simp only [processInitialize, bind_ok, ensure_ok, exists_const] at hok
  obtain ⟨-, -, l₁, hl₁, -, -, d', hd', hw⟩ := hok
  obtain ⟨-, rfl⟩ := writeData_ok.mp hw
  obtain ⟨hlong, h₁, hh₁, rfl⟩ := updateHeader_ok.mp hd'
  rw [pure_ok] at hh₁
  unfold allocateIfEmpty at hl₁
  split at hl₁
  · next hempty =>
    simp only [bind_ok, ensure_ok, exists_const, createDerived_ok] at hl₁
    obtain ⟨-, -, -, -, -, rfl⟩ := hl₁
    have hzero : List.replicate HEADER_SIZE (0 : UInt8) =
        contents ⟨zeroBytes, 0, 0, 0, 0, 0⟩ [] := by decide
    refine ⟨fun j hj => ?_, ?_⟩
    · rw [setData_elsewhere hj, Function.update_of_ne hj]
    · rw [setData_data, ← hh₁, Function.update_self, hzero, withHeader_contents, contents_header,
        List.length_eq_zero_iff.mp hempty]
      exact .create _
  · rw [pure_ok] at hl₁
    subst hl₁
    obtain ⟨h, body, hd⟩ := exists_contents hlong
    refine ⟨fun j hj => setData_elsewhere hj, ?_⟩
    rw [setData_data, ← hh₁, hd, withHeader_contents, contents_header]
    exact .assign _

theorem fitTo_ok {resize : Bool} {payer : Pubkey} (hok : fitTo inv l resize k payer n = .ok l') :
    (∀ j, j ≠ k → l' j = l j) ∧
      (l' k).data = (if resize then resized (l k).data n else (l k).data) ∧
      (resize = false → n ≤ (l k).data.length) := by
  cases resize with
  | true =>
    simp only [fitTo, resizeTo, reallocAccount, bind_ok, ensure_ok, exists_const, pure_ok,
      if_true] at hok
    obtain ⟨l₁, ⟨-, -, -, hw⟩, -, rfl⟩ := hok
    obtain ⟨-, rfl⟩ := writeData_ok.mp hw
    exact ⟨fun j hj => setData_elsewhere hj, setData_data, fun h => by cases h⟩
  | false =>
    simp only [fitTo, bind_ok, ensure_ok, exists_const, pure_ok, Bool.false_eq_true,
      if_false] at hok
    obtain ⟨hn, rfl⟩ := hok
    exact ⟨fun _ _ => rfl, rfl, fun _ => hn⟩

theorem processSetDataLength_operates
    (hok : processSetDataLength inv l contract accounts rest = .ok l') :
    ∃ op, TxoOp.ofTag 1 rest = some op ∧ Operates op l l' contract.key := by
  simp only [processSetDataLength, requireSigner, bind_ok, ensure_ok, exists_const,
    Prod.exists] at hok
  obtain ⟨-, hargs, signer, _, -, _, _, -, -, d₁, hd₁, l₁, hw₁, l₂, hl₂, d₂, hd₂, hw₂⟩ := hok
  obtain ⟨hlong, h₁, hh₁, rfl⟩ := updateHeader_ok.mp hd₁
  obtain ⟨-, rfl⟩ := writeData_ok.mp hw₁
  obtain ⟨helse, hdata, hfits⟩ := fitTo_ok hl₂
  obtain ⟨-, h₂, hh₂, rfl⟩ := updateHeader_ok.mp hd₂
  obtain ⟨-, rfl⟩ := writeData_ok.mp hw₂
  obtain ⟨h, body, hd⟩ := exists_contents hlong
  rw [pure_ok] at hh₂
  rw [setData_data, hd, withHeader_contents] at hdata hfits
  rw [hd, contents_header] at hh₁
  refine ⟨_, if_pos (by omega), fun j hj => ?_, ?_⟩
  · rw [setData_elsewhere hj, helse j hj, setData_elsewhere hj]
  generalize Pod.u32.decode (slice rest 0 4) = n at hdata hfits hh₂ ⊢
  generalize decide (rest.getD 4 0 ≠ 0) = resize at hdata hfits
  have hresized : (l₂ contract.key).data =
      contents h₁ (if resize then resized body n.toNat else body) := by
    rw [hdata]
    cases resize with
    | true => exact resized_contents
    | false => rfl
  rw [setData_data, ← hh₂, hresized, withHeader_contents, contents_header, hd]
  refine .setLen resize hh₁ fun hkeep => ?_
  have hsize := hfits hkeep
  rw [contents_length] at hsize
  exact Nat.le_of_add_le_add_left hsize

theorem processWriteData_operates (hok : processWriteData inv l contract accounts rest = .ok l') :
    ∃ op, TxoOp.ofTag 2 rest = some op ∧ Operates op l l' contract.key := by
  simp only [processWriteData, requireSigner, bind_ok, ensure_ok, exists_const, Prod.exists] at hok
  obtain ⟨-, hargs, signer, _, -, -, hlong, -, h₁, hh₁, hfits, hw⟩ := hok
  obtain ⟨-, rfl⟩ := writeData_ok.mp hw
  obtain ⟨h, body, hd⟩ := exists_contents hlong
  rw [hd, contents_header] at hh₁
  rw [hd, contents_length] at hfits
  refine ⟨_, if_pos hargs, fun j hj => setData_elsewhere hj, ?_⟩
  rw [setData_data, hd, ← withHeader, withHeader_contents, splice_contents]
  exact .write hh₁ (Nat.le_of_add_le_add_left hfits)

theorem processInstruction_operates {data : Bytes}
    (hok : processInstruction p inv l data = .ok l') :
    ∃ contract rest op, inv.accounts = contract :: rest ∧ TxoOp.ofData data = some op ∧
      Operates op l l' contract.key := by
  cases data with
  | nil => cases hok
  | cons tag args =>
    simp only [processInstruction, bind_ok, Prod.exists, nextAccountInfo_ok] at hok
    obtain ⟨contract, rest, ha, hok⟩ := hok
    refine ⟨contract, rest, ?_⟩
    split at hok
    · next htag =>
      exact ⟨_, ha, congrArg (TxoOp.ofTag · args) htag, processInitialize_operates hok⟩
    · next htag =>
      obtain ⟨op, hop, hoperates⟩ := processSetDataLength_operates hok
      exact ⟨op, ha, (congrArg (TxoOp.ofTag · args) htag).trans hop, hoperates⟩
    · next htag =>
      obtain ⟨op, hop, hoperates⟩ := processWriteData_operates hok
      exact ⟨op, ha, (congrArg (TxoOp.ofTag · args) htag).trans hop, hoperates⟩
    · cases hok

/-- What the moves have in common, byte by byte. -/
def Changes (d d' : Bytes) : TxoOp → Prop
  | .setup => d.length ≤ d'.length ∧
      (HEADER_SIZE ≤ d.length → dataSizeOf d' = dataSizeOf d) ∧
      ∀ i b, d[HEADER_SIZE + i]? = some b → d'[HEADER_SIZE + i]? = some b
  | .setLen _ n => dataSizeOf d' = n.toNat ∧ HEADER_SIZE + n.toNat ≤ d'.length ∧
      ∀ i < n.toNat, ∀ b, d[HEADER_SIZE + i]? = some b → d'[HEADER_SIZE + i]? = some b
  | .write _ offset x => HEADER_SIZE + offset.toNat + x.length ≤ d'.length ∧
      d'.length = d.length ∧
      (offset.toNat + x.length ≤ dataSizeOf d → dataSizeOf d' = dataSizeOf d) ∧
      ∀ i, d'[HEADER_SIZE + i]? =
        if offset.toNat ≤ i ∧ i < offset.toNat + x.length then x[i - offset.toNat]?
        else d[HEADER_SIZE + i]?

theorem handleBatchTransition_dataSize {batch : UInt32}
    (hok : handleBatchTransition h batch = .ok h') : h'.dataSize = h.dataSize := by
  unfold handleBatchTransition at hok
  split at hok
  · simp only [bind_ok, ensure_ok, exists_const, pure_ok] at hok
    rw [hok.2]
  · split at hok
    · rw [pure_ok] at hok
      rw [← hok]
    · cases hok

theorem Move.changes {op : TxoOp} (hm : Move op d d') : Changes d d' op := by
  cases hm with
  | create writer =>
    exact ⟨Nat.zero_le _, fun hd => absurd hd (by decide), fun i b hb => by cases hb⟩
  | assign writer =>
    refine ⟨Nat.le_of_eq ?_, fun _ => ?_, fun i b hb => ?_⟩
    · rw [contents_length, contents_length]
    · rw [dataSizeOf_contents, dataSizeOf_contents]
    · rw [contents_getElem?] at hb ⊢
      exact hb
  | @setLen h h₁ body _ _ _ n _ resize tag fits =>
    have hsize : n.toNat ≤ (if resize then resized body n.toNat else body).length := by
      cases resize with
      | true => exact Nat.le_of_eq (resized_length _ _).symm
      | false => exact fits rfl
    refine ⟨dataSizeOf_contents, ?_, fun i hi b hb => ?_⟩
    · rw [contents_length]
      exact Nat.add_le_add_left hsize _
    · rw [contents_getElem?] at hb ⊢
      cases resize with
      | true => exact (resized_getElem? hi (List.getElem?_eq_some_iff.mp hb).1).trans hb
      | false => exact hb
  | @write h h₁ body _ offset x batch fits =>
    refine ⟨?_, ?_, fun hle => ?_, fun i => ?_⟩
    · rw [contents_length, splice_length fits, Nat.add_assoc]
      exact Nat.add_le_add_left fits _
    · rw [contents_length, contents_length, splice_length fits]
    · rw [dataSizeOf_contents, ← handleBatchTransition_dataSize batch] at hle
      rw [dataSizeOf_contents, dataSizeOf_contents, reached, if_neg (Nat.not_lt.mpr hle),
        handleBatchTransition_dataSize batch]
    · rw [contents_getElem?, contents_getElem?, splice_getElem? fits]

end Contents

end TxoBuffer
