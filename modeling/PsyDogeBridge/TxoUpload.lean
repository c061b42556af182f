import PsyDogeBridge.ClientRpc
import PsyDogeBridge.ManualClaimClient
import PsyDogeBridge.TxoBuffer

/-! The upload of the outputs of a block: the client creates the buffer if there is none, sets its
length, writes the chunks and finalizes it. -/
namespace TxoUpload

open PodLayout CheckedSteps SolanaRuntime BridgeData BridgeCalls TxoBuffer
open PendingMintBuffer (BufferResult requireSigner reallocAccount settleRent
  MAX_PERMITTED_DATA_INCREASE)
open BufferSteps (resized resized_length resized_append settleRent_ok)
open ManualClaimClient (Instruction)

abbrev CHUNK_SIZE : ℕ := 900

def txoBufferInit (programId account writer : Pubkey) : Instruction where
  programId := programId
  accounts := [⟨account, false, true⟩, ⟨SYSTEM_PROGRAM_ID, false, false⟩]
  data := 0 :: writer.toList

def txoBufferSetLen (programId account payer writer : Pubkey) (newLen : UInt32) (resize : Bool)
    (batchId height : UInt32) (finalize : Bool) : Instruction where
  programId := programId
  accounts := [⟨account, false, true⟩, ⟨payer, true, true⟩, ⟨SYSTEM_PROGRAM_ID, false, false⟩,
    ⟨writer, true, false⟩]
  data := 1 :: (Pod.u32.encode newLen ++ [if resize then 1 else 0] ++ Pod.u32.encode batchId ++
    Pod.u32.encode height ++ [if finalize then 1 else 0])

def txoBufferWrite (programId account writer : Pubkey) (batchId offset : UInt32) (bytes : Bytes) :
    Instruction where
  programId := programId
  accounts := [⟨account, false, true⟩, ⟨writer, true, true⟩]
  data := 2 :: (Pod.u32.encode batchId ++ Pod.u32.encode offset ++ bytes)

structure TxoBufferBuilder where
  indices : List UInt32
  blockHeight : UInt32

def TxoBufferBuilder.dataSize (self : TxoBufferBuilder) : ℕ := self.indices.length * 4

def TxoBufferBuilder.serializeAll (self : TxoBufferBuilder) : Bytes :=
  self.indices.flatMap Pod.u32.encode

def TxoBufferBuilder.chunks (self : TxoBufferBuilder) : List (ℕ × Bytes) :=
  (List.range ((self.serializeAll.length + (CHUNK_SIZE - 1)) / CHUNK_SIZE)).map fun i =>
    (i * CHUNK_SIZE, slice self.serializeAll (i * CHUNK_SIZE) CHUNK_SIZE)

def deriveTxoBufferPda (p : Platform) (programId writer : Pubkey) : Pubkey :=
  (p.findProgramAddress [TXO_BUFFER_SEED, writer.toList] programId).1

/-- The instruction that creates a missing buffer, and the batch to use. The transfer of the rent
before it moves only lamports. -/
def ensureTxoBufferExists (l : Ledger) (programId buffer operator : Pubkey) :
    Except ClientRpc.BridgeError (List Instruction × UInt32) :=
  if (l buffer).owner = SYSTEM_PROGRAM_ID ∧ (l buffer).data = [] then
    pure ([txoBufferInit programId buffer operator], 0)
  else if 44 ≤ (l buffer).data.length then
    pure ([], Pod.u32.decode (slice (l buffer).data 40 4) + 1)
  else .error (.bufferCreationFailed "Invalid buffer data")

/-- The instructions of a batch. After the first one the client goes over the chunks in steps of
`max_concurrent_writes`, and a step of zero panics. -/
def uploadBatch (programId buffer payer operator : Pubkey) (batchId : UInt32)
    (maxConcurrentWrites : ℕ) (builder : TxoBufferBuilder) (landed : List (ℕ × Bytes)) :
    List Instruction :=
  let dataSize := UInt32.ofNat builder.dataSize
  txoBufferSetLen programId buffer payer operator dataSize true batchId builder.blockHeight false ::
    if 0 < maxConcurrentWrites then
      landed.map (fun (offset, data) =>
          txoBufferWrite programId buffer operator batchId (UInt32.ofNat offset) data) ++
        [txoBufferSetLen programId buffer payer operator dataSize false batchId builder.blockHeight
          true]
    else []

def createTxoBuffer (p : Platform) (l : Ledger) (programId payer operator : Pubkey)
    (maxConcurrentWrites : ℕ) (builder : TxoBufferBuilder) (landed : List (ℕ × Bytes)) :
    Except ClientRpc.BridgeError (List Instruction) := do
  let buffer := deriveTxoBufferPda p programId operator
  let (start, batchId) ← ensureTxoBufferExists l programId buffer operator
  pure (start ++
    uploadBatch programId buffer payer operator batchId maxConcurrentWrites builder landed)

def sendAll (p : Platform) (now : ℤ) (l : Ledger) (ixs : List Instruction) : BufferResult Ledger :=
  ixs.foldlM (fun l ix => processInstruction p (ix.invocation now) l ix.data) l

variable {p : Platform} {now : ℤ} {l l' : Ledger} {programId k payer operator : Pubkey} {h : Header}
  {body : Bytes} {batchId height : UInt32} {landed : List (ℕ × Bytes)} {builder : TxoBufferBuilder}

section Instructions

variable {writer : Pubkey} {n : UInt32} {resize finalize : Bool}

theorem u32_bytes (n : UInt32) : ∃ a b c d, Pod.u32.encode n = [a, b, c, d] := by
  have hlen : (Pod.u32.encode n).length = 4 := Pod.encode_length _ _
  match hbytes : Pod.u32.encode n, hlen with
  | [a, b, c, d], _ => exact ⟨a, b, c, d, rfl⟩

theorem setLen_arguments (n batchId height : UInt32) (resize finalize : UInt8) :
    let rest := Pod.u32.encode n ++ [resize] ++ Pod.u32.encode batchId ++ Pod.u32.encode height ++
      [finalize]
    rest.length = 14 ∧ slice rest 0 4 = Pod.u32.encode n ∧ rest.getD 4 0 = resize ∧
      slice rest 5 4 = Pod.u32.encode batchId ∧ slice rest 9 4 = Pod.u32.encode height ∧
      rest.getD 13 0 = finalize := by
  obtain ⟨_, _, _, _, hn⟩ := u32_bytes n
  obtain ⟨_, _, _, _, hb⟩ := u32_bytes batchId
  obtain ⟨_, _, _, _, hh⟩ := u32_bytes height
  rw [hn, hb, hh]
  exact ⟨rfl, rfl, rfl, rfl, rfl, rfl⟩

theorem write_arguments (batchId offset : UInt32) (x : Bytes) :
    let rest := Pod.u32.encode batchId ++ Pod.u32.encode offset ++ x
    8 ≤ rest.length ∧ slice rest 0 4 = Pod.u32.encode batchId ∧
      slice rest 4 4 = Pod.u32.encode offset ∧ rest.drop 8 = x := by
  obtain ⟨_, _, _, _, hb⟩ := u32_bytes batchId
  obtain ⟨_, _, _, _, ho⟩ := u32_bytes offset
  rw [hb, ho]
  exact ⟨Nat.le_add_left 8 _, rfl, rfl, rfl⟩

section Fit

variable {inv : Invocation} (hwrites : inv.writes k) (hsystem : inv.lists SYSTEM_PROGRAM_ID)
  (hfunds : inv.fundsSuffice = true) (hsigns : inv.signs payer) (hpays : inv.writes payer)

include hwrites hsystem hfunds hsigns hpays

theorem fitTo_eq_ok {d : Bytes} {size : ℕ} (hk : l k = ⟨inv.programId, d⟩) :
    fitTo inv l resize k payer size = .ok l' ↔
      (if resize then size ≤ d.length + MAX_PERMITTED_DATA_INCREASE ∧
          size ≤ MAX_PERMITTED_DATA_LENGTH
        else size ≤ d.length) ∧
      l' = l.setData k (if resize then resized d size else d) := by
  have hrent : settleRent inv payer d.length size true = .ok () :=
    settleRent_ok hsystem hfunds hsigns hpays
  have hsame : l.setData k d = l := by
    rw [Ledger.setData, hk, ← hk, Function.update_eq_self]
  cases resize with
  | false =>
    simp only [fitTo, hk, bind_ok, ensure_ok, exists_const, pure_ok, Bool.false_eq_true, if_false,
      hsame, eq_comm (a := l')]
  | true =>
    simp only [fitTo, resizeTo, reallocAccount, hk, hrent, bind_ok, ensure_ok, exists_const,
      pure_ok, if_true, writeData_ok]
    constructor
    · rintro ⟨l₁, ⟨-, hbound, -, rfl⟩, hsize, rfl⟩
      exact ⟨⟨hsize, hbound⟩, rfl⟩
    · rintro ⟨⟨hsize, hbound⟩, rfl⟩
      exact ⟨_, ⟨trivial, hbound, .inr ⟨trivial, hwrites⟩, rfl⟩, hsize, rfl⟩

theorem fitTo_withHeader {h₁ : Header} (hk : l k = ⟨inv.programId, contents h body⟩) :
    fitTo inv (l.setData k (withHeader (contents h body) h₁)) resize k payer
        (HEADER_SIZE + n.toNat) = .ok l' ↔
      (if resize then n.toNat ≤ body.length + MAX_PERMITTED_DATA_INCREASE ∧
          HEADER_SIZE + n.toNat ≤ MAX_PERMITTED_DATA_LENGTH
        else n.toNat ≤ body.length) ∧
      l' = l.setData k (contents h₁ (if resize then resized body n.toNat else body)) := by
  have hset (d : Bytes) : l.setData k d k = ⟨inv.programId, d⟩ := by
    rw [setData_self, hk]
  rw [fitTo_eq_ok hwrites hsystem hfunds hsigns hpays (hset _), withHeader_contents,
    contents_length, setData_setData]
  cases resize with
  | false => simp
  | true => simp [resized_contents, Nat.add_assoc]

end Fit

theorem setLen_ok (hk : l k = ⟨programId, contents h body⟩) :
    processInstruction p ((txoBufferSetLen programId k payer writer n resize batchId height
        finalize).invocation now) l
        (txoBufferSetLen programId k payer writer n resize batchId height
        finalize).data = .ok l' ↔
      ∃ h₁, tagBatch payer batchId height finalize h = .ok h₁ ∧
        (if resize then n.toNat ≤ body.length + MAX_PERMITTED_DATA_INCREASE ∧
            HEADER_SIZE + n.toNat ≤ MAX_PERMITTED_DATA_LENGTH
          else n.toNat ≤ body.length) ∧
        l' = l.setData k (contents { h₁ with dataSize := n }
          (if resize then resized body n.toNat else body)) := by
  generalize hinv : (txoBufferSetLen programId k payer writer n resize batchId height
    finalize).invocation now = inv
  rw [show programId = inv.programId by rw [← hinv]; rfl] at hk
  have haccounts : inv.accounts = [⟨k, false, true⟩, ⟨payer, true, true⟩,
      ⟨SYSTEM_PROGRAM_ID, false, false⟩, ⟨writer, true, false⟩] := by rw [← hinv]; rfl
  have hfunds : inv.fundsSuffice = true := by rw [← hinv]; rfl
  have hwrites : inv.writes k := ⟨⟨k, false, true⟩, by simp [haccounts], rfl, rfl⟩
  have hsigns : inv.signs payer := ⟨⟨payer, true, true⟩, by simp [haccounts], rfl, rfl⟩
  have hpays : inv.writes payer := ⟨⟨payer, true, true⟩, by simp [haccounts], rfl, rfl⟩
  have hsystem : inv.lists SYSTEM_PROGRAM_ID :=
    ⟨⟨SYSTEM_PROGRAM_ID, false, false⟩, by simp [haccounts], rfl⟩
  obtain ⟨hlen, hn, hresize, hb, hh, hfinalize⟩ := setLen_arguments n batchId height
    (if resize then 1 else 0) (if finalize then 1 else 0)
  have hflag (b : Bool) : decide ((if b then (1 : UInt8) else 0) ≠ 0) = b := by
    cases b with
    | false => rfl
    | true => rfl
  rw [txoBufferSetLen, processInstruction, haccounts]
  generalize Pod.u32.encode n ++ [if resize then 1 else 0] ++ Pod.u32.encode batchId ++
    Pod.u32.encode height ++ [if finalize then 1 else 0] = rest at hlen hn hresize hb hh hfinalize ⊢
  change processSetDataLength inv l ⟨k, false, true⟩ [⟨payer, true, true⟩,
    ⟨SYSTEM_PROGRAM_ID, false, false⟩, ⟨writer, true, false⟩] rest = .ok l' ↔ _
  have hlong : 48 ≤ (contents h body).length := by
    rw [contents_length]
    omega
  simp only [processSetDataLength, requireSigner, bind_ok, ensure_ok, exists_const, Prod.exists,
    nextAccountInfo_ok, hk, hlen, hn, hresize, hb, hh, hfinalize, hflag, Pod.decode_encode,
    updateHeader_ok, contents_header, writeData_ok]
  have hset (d : Bytes) : l.setData k d k = ⟨inv.programId, d⟩ := by
    rw [setData_self, hk]
  constructor
  · rintro ⟨-, -, signer, accounts, hs, _, _, -, -, _, ⟨-, h₁, hh₁, rfl⟩, _, ⟨-, rfl⟩, l₂, hl₂, _,
      ⟨-, h₂, hh₂, rfl⟩, -, rfl⟩
    cases hs
    obtain ⟨hsize, rfl⟩ := (fitTo_withHeader hwrites hsystem hfunds hsigns hpays hk).mp hl₂
    rw [hset] at hh₂ ⊢
    dsimp only at hh₂ ⊢
    rw [contents_header, pure_ok] at hh₂
    refine ⟨h₁, hh₁, hsize, ?_⟩
    rw [setData_setData, withHeader_contents, hh₂]
  · rintro ⟨h₁, hh₁, hsize, rfl⟩
    have hwritten (d : Bytes) : (l.setData k d k).data = d := by rw [hset]
    refine ⟨trivial, trivial, ⟨payer, true, true⟩, _, rfl, _, _, rfl, rfl, _,
      ⟨hlong, h₁, hh₁, rfl⟩, _, ⟨.inr ⟨trivial, hwrites⟩, rfl⟩, _,
      (fitTo_withHeader hwrites hsystem hfunds hsigns hpays hk).mpr ⟨hsize, rfl⟩, _,
      ⟨?_, _, rfl, rfl⟩, .inr ⟨?_, hwrites⟩, ?_⟩
    · rw [hwritten, contents_length]
      exact Nat.le_add_right _ _
    · rw [hset]
    · rw [setData_setData, hwritten, contents_header, withHeader_contents]

theorem write_ok {offset : UInt32} {x : Bytes} (hk : l k = ⟨programId, contents h body⟩) :
    processInstruction p ((txoBufferWrite programId k writer batchId offset x).invocation now) l
        (txoBufferWrite programId k writer batchId offset x).data = .ok l' ↔
      h.authorizedWriter = writer ∧ ∃ h₁, handleBatchTransition h batchId = .ok h₁ ∧
        offset.toNat + x.length ≤ body.length ∧
        l' = l.setData k (contents (reached h₁ (offset.toNat + x.length))
          (splice body offset.toNat x)) := by
  generalize hinv : (txoBufferWrite programId k writer batchId offset x).invocation now = inv
  have hprogram : inv.programId = programId := by rw [← hinv]; rfl
  have haccounts : inv.accounts = [⟨k, false, true⟩, ⟨writer, true, true⟩] := by rw [← hinv]; rfl
  have hwrites : inv.writes k := ⟨⟨k, false, true⟩, by simp [haccounts], rfl, rfl⟩
  obtain ⟨hlen, hb, ho, hx⟩ := write_arguments batchId offset x
  have hlong : 48 ≤ (contents h body).length := by
    rw [contents_length]
    omega
  have hinside : HEADER_SIZE + (offset.toNat + x.length) ≤ (contents h body).length ↔
      offset.toNat + x.length ≤ body.length := by
    rw [contents_length]
    exact Nat.add_le_add_iff_left
  rw [txoBufferWrite, processInstruction, haccounts]
  generalize Pod.u32.encode batchId ++ Pod.u32.encode offset ++ x = rest at hlen hb ho hx ⊢
  change processWriteData inv l ⟨k, false, true⟩ [⟨writer, true, true⟩] rest = .ok l' ↔ _
  simp only [processWriteData, requireSigner, bind_ok, ensure_ok, exists_const, Prod.exists,
    nextAccountInfo_ok, hk, hprogram, hlen, hb, ho, hx, Pod.decode_encode, contents_header,
    writeData_ok, hinside]
  constructor
  · rintro ⟨-, -, signer, _, hs, -, -, hwriter, h₁, hh₁, hfits, -, rfl⟩
    cases hs
    refine ⟨hwriter, h₁, hh₁, hfits, ?_⟩
    rw [← withHeader, withHeader_contents, splice_contents]
    rfl
  · rintro ⟨hwriter, h₁, hh₁, hfits, rfl⟩
    refine ⟨trivial, trivial, ⟨writer, true, true⟩, _, rfl, rfl, hlong, hwriter, h₁, hh₁, hfits,
      .inr ⟨trivial, hwrites⟩, ?_⟩
    rw [← withHeader, withHeader_contents, splice_contents]
    rfl

theorem init_ok (hpda : k = deriveTxoBufferPda p programId writer)
    (hk : l k = ⟨SYSTEM_PROGRAM_ID, []⟩) :
    processInstruction p ((txoBufferInit programId k writer).invocation now) l
        (txoBufferInit programId k writer).data =
      .ok (Function.update l k ⟨programId, contents (initialHeader writer) []⟩) := by
  generalize hinv : (txoBufferInit programId k writer).invocation now = inv
  have hprogram : inv.programId = programId := by rw [← hinv]; rfl
  have haccounts : inv.accounts = [⟨k, false, true⟩, ⟨SYSTEM_PROGRAM_ID, false, false⟩] := by
    rw [← hinv]
    rfl
  have hfunds : inv.fundsSuffice = true := by rw [← hinv]; rfl
  have hwrites : inv.writes k := ⟨⟨k, false, true⟩, by simp [haccounts], rfl, rfl⟩
  have hsystem : inv.lists SYSTEM_PROGRAM_ID :=
    ⟨⟨SYSTEM_PROGRAM_ID, false, false⟩, by simp [haccounts], rfl⟩
  have hlen : writer.toList.length = 32 := Vector.length_toList
  have hzero : List.replicate 48 (0 : UInt8) = contents ⟨zeroBytes, 0, 0, 0, 0, 0⟩ [] := by decide
  have hcreated : allocateIfEmpty inv l k =
      .ok (Function.update l k ⟨programId, contents ⟨zeroBytes, 0, 0, 0, 0, 0⟩ []⟩) := by
    have hempty : (l k).data.length = 0 := by rw [hk]; rfl
    rw [allocateIfEmpty, if_pos hempty]
    simp only [bind_ok, ensure_ok, exists_const, createDerived_ok]
    refine ⟨hfunds, hsystem, hwrites, hfunds, ⟨by rw [hk], by rw [hk]⟩, ?_⟩
    rw [hprogram, ← hzero]
  rw [txoBufferInit, processInstruction, haccounts]
  change processInitialize p inv l ⟨k, false, true⟩ writer.toList = _
  simp only [processInitialize, bind_ok, ensure_ok, exists_const, hlen, hashPod_decode, hprogram,
    hcreated, Except.ok.injEq, exists_eq_left', Function.update_self, updateHeader_ok,
    contents_header, writeData_ok, contents_length]
  refine ⟨trivial, hpda, trivial, Nat.le_refl _, _, ⟨Nat.le_refl _, _, rfl, rfl⟩,
    .inr ⟨trivial, hwrites⟩, ?_⟩
  rw [withHeader_contents, Ledger.setData, Function.update_self, Function.update_idem]
  rfl

theorem init_present (hpda : k = deriveTxoBufferPda p programId writer)
    (hk : l k = ⟨programId, contents h body⟩) :
    processInstruction p ((txoBufferInit programId k writer).invocation now) l
        (txoBufferInit programId k writer).data =
      .ok (l.setData k (contents { h with authorizedWriter := writer, initStatus := 1 } body)) := by
  have hlen : (contents h body).length ≠ 0 := by
    rw [contents_length]
    omega
  have hkept : allocateIfEmpty ((txoBufferInit programId k writer).invocation now) l k = .ok l := by
    rw [allocateIfEmpty, hk, if_neg hlen]
    rfl
  have hwrites : ((txoBufferInit programId k writer).invocation now).writes k :=
    ⟨⟨k, false, true⟩, List.mem_cons_self, rfl, rfl⟩
  have hlong : HEADER_SIZE ≤ (contents h body).length := by
    rw [contents_length]
    exact Nat.le_add_right _ _
  change processInitialize p ((txoBufferInit programId k writer).invocation now) l ⟨k, false, true⟩
    writer.toList = _
  simp only [processInitialize, bind_ok, ensure_ok, exists_const, hashPod_decode, hkept,
    Except.ok.injEq, exists_eq_left', hk, updateHeader_ok, contents_header, writeData_ok]
  refine ⟨Vector.length_toList, hpda, rfl, hlong, _, ⟨hlong, _, rfl, rfl⟩, .inr ⟨rfl, hwrites⟩, ?_⟩
  rw [withHeader_contents]

end Instructions

section Chunks

variable {all : Bytes}

def written (body : Bytes) (landed : List (ℕ × Bytes)) : Bytes :=
  landed.foldl (fun body chunk => splice body chunk.1 chunk.2) body

def Copies (all : Bytes) (chunk : ℕ × Bytes) : Prop :=
  chunk.1 + chunk.2.length ≤ all.length ∧ chunk.2 = slice all chunk.1 chunk.2.length

theorem copies_slice {off n : ℕ} (h : off ≤ all.length) : Copies all (off, slice all off n) := by
  have hlen : (slice all off n).length = min n (all.length - off) := by
    rw [slice, List.length_take, List.length_drop]
  refine ⟨?_, ?_⟩
  · dsimp only
    omega
  · dsimp only
    rw [hlen, slice, slice]
    apply List.ext_getElem?
    intro j
    simp only [List.getElem?_take, List.getElem?_drop]
    by_cases hj : j < n
    · by_cases hj' : j < min n (all.length - off)
      · rw [if_pos hj, if_pos hj']
      · rw [if_pos hj, if_neg hj', List.getElem?_eq_none (by omega)]
    · rw [if_neg hj, if_neg (by omega)]

theorem splice_copies {chunk : ℕ × Bytes} (hc : Copies all chunk)
    (hfits : chunk.1 + chunk.2.length ≤ body.length) (j : ℕ) :
    (splice body chunk.1 chunk.2)[j]? =
      if chunk.1 ≤ j ∧ j < chunk.1 + chunk.2.length then all[j]? else body[j]? := by
  obtain ⟨-, heq⟩ := hc
  rw [splice_getElem? hfits]
  by_cases hj : chunk.1 ≤ j ∧ j < chunk.1 + chunk.2.length
  · have hback : chunk.1 + (j - chunk.1) = j := by omega
    rw [if_pos hj, if_pos hj, heq, slice_getElem?, if_pos (by omega), hback]
  · rw [if_neg hj, if_neg hj]

/-- Each write leaves a byte that is already there, and what a write covers is there at the end. -/
theorem written_getElem? (hc : ∀ chunk ∈ landed, Copies all chunk)
    (hlen : body.length = all.length) :
    (written body landed).length = all.length ∧ ∀ j,
      (body[j]? = all[j]? ∨ ∃ chunk ∈ landed, chunk.1 ≤ j ∧ j < chunk.1 + chunk.2.length) →
        (written body landed)[j]? = all[j]? := by
  induction landed generalizing body with
  | nil =>
    refine ⟨hlen, ?_⟩
    rintro j (hj | ⟨chunk, hmem, -⟩)
    · exact hj
    · cases hmem
  | cons chunk landed ih =>
    have hchunk := hc chunk List.mem_cons_self
    have hfits : chunk.1 + chunk.2.length ≤ body.length := hchunk.1.trans_eq hlen.symm
    have hlen' : (splice body chunk.1 chunk.2).length = all.length := by
      rw [splice_length hfits, hlen]
    obtain ⟨hlength, hbytes⟩ := ih (fun c hmem => hc c (List.mem_cons_of_mem _ hmem)) hlen'
    refine ⟨hlength, ?_⟩
    intro j hj
    apply hbytes
    rw [splice_copies hchunk hfits]
    by_cases hcovered : chunk.1 ≤ j ∧ j < chunk.1 + chunk.2.length
    · rw [if_pos hcovered]
      exact .inl rfl
    · rw [if_neg hcovered]
      rcases hj with hj | ⟨c, hmem, hj⟩
      · exact .inl hj
      · rcases List.mem_cons.mp hmem with rfl | hmem
        · exact absurd hj hcovered
        · exact .inr ⟨c, hmem, hj⟩

theorem serializeAll_length : builder.serializeAll.length = builder.indices.length * 4 := by
  rw [TxoBufferBuilder.serializeAll, List.length_flatMap]
  simp

theorem chunks_copy {chunk : ℕ × Bytes} (h : chunk ∈ builder.chunks) :
    Copies builder.serializeAll chunk := by
  obtain ⟨i, hi, rfl⟩ := List.mem_map.mp h
  have hi' := List.mem_range.mp hi
  simp only [CHUNK_SIZE] at hi' ⊢
  exact copies_slice (by omega)

theorem chunks_cover {j : ℕ} (hj : j < builder.serializeAll.length) :
    ∃ chunk ∈ builder.chunks, chunk.1 ≤ j ∧ j < chunk.1 + chunk.2.length := by
  refine ⟨_, List.mem_map.mpr ⟨j / CHUNK_SIZE, List.mem_range.mpr ?_, rfl⟩, ?_, ?_⟩
  · simp only [CHUNK_SIZE]
    omega
  · simp only [CHUNK_SIZE]
    omega
  · simp only [CHUNK_SIZE, slice, List.length_take, List.length_drop]
    omega

/-- In whatever order the chunks land, they leave the data. -/
theorem written_chunks (hperm : landed.Perm builder.chunks)
    (hlen : body.length = builder.serializeAll.length) :
    written body landed = builder.serializeAll := by
  have hc : ∀ chunk ∈ landed, Copies builder.serializeAll chunk :=
    fun chunk hmem => chunks_copy (hperm.mem_iff.mp hmem)
  obtain ⟨hlength, hbytes⟩ := written_getElem? hc hlen
  apply List.ext_getElem?
  intro j
  by_cases hj : j < builder.serializeAll.length
  · obtain ⟨chunk, hmem, hcovered⟩ := chunks_cover hj
    exact hbytes j (.inr ⟨chunk, hperm.mem_iff.mpr hmem, hcovered⟩)
  · rw [List.getElem?_eq_none (by omega), List.getElem?_eq_none (by omega)]

end Chunks

section Batches

variable {h₁ : Header}

/-- The batch of a new upload: the one after the stored one, or the first one of a new buffer. -/
structure Startable (operator : Pubkey) (h : Header) (batchId : UInt32) : Prop where
  writer : h.authorizedWriter = operator
  batch : batchId = h.batchId + 1 ∨
    batchId = h.batchId ∧ h.finalizedStatus = 0 ∧ h.dogeBlockHeight = 0

def tagged (h : Header) (batchId height : UInt32) : Header :=
  { h with batchId := batchId, finalizedStatus := 0, dogeBlockHeight := height }

theorem succ_ne (n : UInt32) : n + 1 ≠ n := by
  have hone : (1 : UInt32).toNat = 1 := rfl
  intro heq
  rw [← UInt32.toNat_inj, UInt32.toNat_add, hone] at heq
  have := n.toNat_lt
  omega

theorem tagBatch_start (hs : Startable operator h batchId) :
    tagBatch payer batchId height false h = .ok h₁ ↔
      payer = operator ∧ h₁ = tagged h batchId height := by
  simp only [tagBatch, bind_ok, ensure_ok, exists_const, pure_ok, hs.writer, Bool.false_eq_true,
    if_false, eq_comm (a := operator), eq_comm (b := h₁)]
  refine and_congr_right fun _ => ?_
  rcases hs.batch with rfl | ⟨rfl, hopen, hheight⟩
  · simp [handleBatchTransition, pure_ok, tagged]
  · simp [handleBatchTransition, hopen, hheight, tagged, ensure_ok]

theorem handleBatchTransition_same (hbatch : h.batchId = batchId) (hopen : h.finalizedStatus = 0) :
    handleBatchTransition h batchId = .ok h := by
  rw [handleBatchTransition, if_pos hbatch.symm, hopen]
  rfl

theorem tagBatch_finish (hwriter : h.authorizedWriter = operator) (hbatch : h.batchId = batchId)
    (hopen : h.finalizedStatus = 0) (hheight : h.dogeBlockHeight = height) :
    tagBatch operator batchId height true h = .ok { h with finalizedStatus := 1 } := by
  simp only [tagBatch, handleBatchTransition_same hbatch hopen, bind_ok, ensure_ok, exists_const,
    pure_ok, if_true]
  refine ⟨hwriter, h, rfl, .inr (.inr hheight), ?_⟩
  rw [← hheight]

theorem handleBatchTransition_writer (hok : handleBatchTransition h batchId = .ok h₁) :
    h₁.authorizedWriter = h.authorizedWriter := by
  unfold handleBatchTransition at hok
  split at hok
  · simp only [bind_ok, ensure_ok, exists_const, pure_ok] at hok
    rw [hok.2]
  · split at hok
    · rw [pure_ok] at hok
      rw [← hok]
    · cases hok

theorem tagBatch_writer {finalize : Bool}
    (hok : tagBatch payer batchId height finalize h = .ok h₁) :
    h₁.authorizedWriter = h.authorizedWriter := by
  simp only [tagBatch, bind_ok, ensure_ok, exists_const, pure_ok] at hok
  obtain ⟨-, h₂, hh₂, -, rfl⟩ := hok
  have hwriter := handleBatchTransition_writer hh₂
  exact hwriter

theorem reached_writer (h : Header) (writeEnd : ℕ) :
    (reached h writeEnd).authorizedWriter = h.authorizedWriter := by
  unfold reached
  split
  · rfl
  · rfl

theorem contents_batch (h : Header) (body : Bytes) :
    Pod.u32.decode (slice (contents h body) 40 4) = h.batchId := by
  have hsplit : contents h body =
      (hashPod.encode h.authorizedWriter ++ Pod.u16.encode h.initStatus ++
        Pod.u16.encode h.finalizedStatus ++ Pod.u32.encode h.dogeBlockHeight) ++
      (Pod.u32.encode h.batchId ++ (Pod.u32.encode h.dataSize ++ body)) := by
    change (hashPod.encode h.authorizedWriter ++ (Pod.u16.encode h.initStatus ++
      (Pod.u16.encode h.finalizedStatus ++ (Pod.u32.encode h.dogeBlockHeight ++
        (Pod.u32.encode h.batchId ++ Pod.u32.encode h.dataSize))))) ++ body = _
    simp only [List.append_assoc]
  have hfront : (hashPod.encode h.authorizedWriter ++ Pod.u16.encode h.initStatus ++
      Pod.u16.encode h.finalizedStatus ++ Pod.u32.encode h.dogeBlockHeight).length = 40 := by
    simp only [List.length_append, Pod.encode_length]
    rfl
  have hbytes : (Pod.u32.encode h.batchId).length = 4 := Pod.encode_length _ _
  rw [hsplit, slice_middle hfront hbytes, Pod.decode_encode]

end Batches

section Upload

variable {ixs : List Instruction} {maxWrites : ℕ}

theorem sendAll_append (as bs : List Instruction) :
    sendAll p now l (as ++ bs) = sendAll p now l as >>= fun l => sendAll p now l bs := by
  rw [sendAll, List.foldlM_append]
  rfl

theorem sendAll_single (ix : Instruction) :
    sendAll p now l [ix] = processInstruction p (ix.invocation now) l ix.data := by
  rw [sendAll, List.foldlM_cons]
  exact bind_pure _

theorem writes_sent (hk : l k = ⟨programId, contents h body⟩)
    (hwriter : h.authorizedWriter = operator)
    (hbatch : h.batchId = batchId) (hopen : h.finalizedStatus = 0)
    (hsize : h.dataSize.toNat = body.length)
    (hfits : ∀ chunk ∈ landed, chunk.1 + chunk.2.length ≤ body.length) :
    sendAll p now l (landed.map fun (offset, data) =>
        txoBufferWrite programId k operator batchId (UInt32.ofNat offset) data) =
      .ok (l.setData k (contents h (written body landed))) := by
  induction landed generalizing l body with
  | nil =>
    rw [written, List.foldl_nil, Ledger.setData, hk, ← hk, Function.update_eq_self]
    rfl
  | cons chunk landed ih =>
    obtain ⟨offset, data⟩ := chunk
    have hfit : offset + data.length ≤ body.length := hfits _ List.mem_cons_self
    have hbound : offset < UInt32.size := by
      have hlt := h.dataSize.toNat_lt_size
      omega
    have hoffset : (UInt32.ofNat offset).toNat = offset := UInt32.toNat_ofNat_of_lt' hbound
    have hreached : reached h (offset + data.length) = h := by
      rw [reached, if_neg]
      omega
    have hlen : (splice body offset data).length = body.length := splice_length hfit
    have hstep : processInstruction p ((txoBufferWrite programId k operator batchId
        (UInt32.ofNat offset) data).invocation now) l (txoBufferWrite programId k operator batchId
        (UInt32.ofNat offset) data).data =
          .ok (l.setData k (contents h (splice body offset data))) := by
      apply (write_ok hk).mpr
      rw [hoffset]
      refine ⟨hwriter, h, handleBatchTransition_same hbatch hopen, hfit, ?_⟩
      rw [hreached]
    have hnext : l.setData k (contents h (splice body offset data)) k =
        ⟨programId, contents h (splice body offset data)⟩ := by
      rw [setData_self, hk]
    rw [List.map_cons, ← List.singleton_append, sendAll_append, sendAll_single, hstep]
    refine (ih hnext (by rw [hlen]; exact hsize) ?_).trans ?_
    · intro chunk hmem
      rw [hlen]
      exact hfits chunk (List.mem_cons_of_mem _ hmem)
    · rw [setData_setData]
      rfl

def opened (h : Header) (batchId : UInt32) (builder : TxoBufferBuilder) : Header :=
  { tagged h batchId builder.blockHeight with dataSize := UInt32.ofNat builder.dataSize }

def finished (h : Header) (batchId : UInt32) (builder : TxoBufferBuilder) : Header :=
  { opened h batchId builder with finalizedStatus := 1 }

theorem uploadBatch_sent_iff (hk : l k = ⟨programId, contents h body⟩)
    (hs : Startable operator h batchId) (hcount : builder.indices.length ≤ 65534)
    (hperm : landed.Perm builder.chunks) (hwrites : 0 < maxWrites) :
    sendAll p now l (uploadBatch programId k payer operator batchId maxWrites builder
        landed) = .ok l' ↔
      payer = operator ∧ builder.dataSize ≤ body.length + MAX_PERMITTED_DATA_INCREASE ∧
        l' = l.setData k (contents (finished h batchId builder) builder.serializeAll) := by
  have hbytes : (UInt32.ofNat builder.dataSize).toNat = builder.dataSize := by
    apply UInt32.toNat_ofNat_of_lt'
    rw [TxoBufferBuilder.dataSize, UInt32.size]
    omega
  have hlength : (resized body builder.dataSize).length = builder.serializeAll.length := by
    rw [resized_length, serializeAll_length, TxoBufferBuilder.dataSize]
  have hpermitted : HEADER_SIZE + builder.dataSize ≤ MAX_PERMITTED_DATA_LENGTH := by
    change 48 + builder.indices.length * 4 ≤ 10 * 1024 * 1024
    omega
  have hset (d : Bytes) : l.setData k d k = ⟨programId, d⟩ := by rw [setData_self, hk]
  have hwriter : (opened h batchId builder).authorizedWriter = operator := hs.writer
  have hbatch : (opened h batchId builder).batchId = batchId := rfl
  have hopen : (opened h batchId builder).finalizedStatus = 0 := rfl
  have hwritten : sendAll p now (l.setData k (contents (opened h batchId builder)
        (resized body builder.dataSize)))
      (landed.map fun (offset, data) =>
        txoBufferWrite programId k operator batchId (UInt32.ofNat offset) data) =
      .ok (l.setData k (contents (opened h batchId builder) builder.serializeAll)) := by
    rw [writes_sent (hset _) hwriter hbatch hopen, written_chunks hperm hlength, setData_setData]
    · rw [resized_length]
      exact hbytes
    · intro chunk hmem
      rw [hlength]
      exact (chunks_copy (hperm.mem_iff.mp hmem)).1
  have hfinal : processInstruction p ((txoBufferSetLen programId k operator operator
      (UInt32.ofNat builder.dataSize) false batchId builder.blockHeight true).invocation now)
      (l.setData k (contents (opened h batchId builder) builder.serializeAll))
      (txoBufferSetLen programId k operator operator (UInt32.ofNat builder.dataSize) false batchId
        builder.blockHeight true).data =
      .ok (l.setData k (contents (finished h batchId builder) builder.serializeAll)) := by
    apply (setLen_ok (hset _)).mpr
    refine ⟨_, tagBatch_finish hwriter hbatch hopen rfl, ?_, ?_⟩
    · rw [hbytes, serializeAll_length]
      exact Nat.le_refl _
    · rw [setData_setData]
      rfl
  rw [uploadBatch, if_pos hwrites, ← List.singleton_append, sendAll_append, sendAll_single]
  simp only [bind_ok, sendAll_append, sendAll_single, setLen_ok hk, tagBatch_start hs,
    if_true, hbytes]
  constructor
  · rintro ⟨l₁, ⟨h₁, ⟨rfl, rfl⟩, ⟨hsize, -⟩, rfl⟩, l₂, hl₂, hl'⟩
    have heq := Except.ok.inj (hwritten.symm.trans hl₂)
    rw [← heq] at hl'
    exact ⟨rfl, hsize, Except.ok.inj (hl'.symm.trans hfinal)⟩
  · rintro ⟨rfl, hsize, rfl⟩
    exact ⟨_, ⟨_, ⟨rfl, rfl⟩, ⟨hsize, hpermitted⟩, rfl⟩, _, hwritten, hfinal⟩

/-- The state of a buffer that uploads of the operator leave: there is none yet, or it is theirs. -/
def Prepared (programId operator : Pubkey) (a : Account) : Prop :=
  a = ⟨SYSTEM_PROGRAM_ID, []⟩ ∨
    ∃ h body, a = ⟨programId, contents h body⟩ ∧ h.authorizedWriter = operator

structure Finished (builder : TxoBufferBuilder) (d : Bytes) : Prop where
  finalized : (txoBufferHeader d).finalizedStatus = 1
  height : (txoBufferHeader d).dogeBlockHeight = builder.blockHeight
  size : (txoBufferHeader d).dataSize.toNat = 4 * builder.indices.length
  body : d.drop 48 = builder.indices.flatMap Pod.u32.encode

def Fits (builder : TxoBufferBuilder) (a : Account) : Prop :=
  4 * builder.indices.length ≤ (a.data.length - 48) + MAX_PERMITTED_DATA_INCREASE

theorem finished_contents (hcount : builder.indices.length ≤ 65534) :
    Finished builder (contents (finished h batchId builder) builder.serializeAll) := by
  refine ⟨?_, ?_, ?_, ?_⟩
  · rw [contents_header]
    rfl
  · rw [contents_header]
    rfl
  · rw [contents_header]
    change (UInt32.ofNat (builder.indices.length * 4)).toNat = _
    rw [UInt32.toNat_ofNat_of_lt', Nat.mul_comm]
    rw [UInt32.size]
    omega
  · rw [contents_drop]
    rfl

theorem createTxoBuffer_ok (hpda : k = deriveTxoBufferPda p programId operator)
    (hl : Prepared programId operator (l k)) :
    ∃ start batchId, createTxoBuffer p l programId payer operator maxWrites builder landed =
        .ok (start ++ uploadBatch programId k payer operator batchId maxWrites builder landed) ∧
      ∃ l₁ h body, sendAll p now l start = .ok l₁ ∧ l₁ k = ⟨programId, contents h body⟩ ∧
        body.length = (l k).data.length - 48 ∧ Startable operator h batchId := by
  rcases hl with habsent | ⟨h, body, hpresent, hwriter⟩
  · refine ⟨[txoBufferInit programId k operator], 0, ?_, _, initialHeader operator, [],
      (sendAll_single _).trans (init_ok hpda habsent), Function.update_self _ _ _, ?_, rfl,
      .inr ⟨rfl, rfl, rfl⟩⟩
    · rw [createTxoBuffer, ← hpda, ensureTxoBufferExists,
        if_pos (by rw [habsent]; exact ⟨rfl, rfl⟩)]
      rfl
    · rw [habsent]
      rfl
  · have hlen : (contents h body).length = 48 + body.length := contents_length
    have hne : contents h body ≠ [] := by
      intro hnil
      rw [hnil, List.length_nil] at hlen
      omega
    refine ⟨[], h.batchId + 1, ?_, l, h, body, rfl, hpresent, ?_, hwriter, .inl rfl⟩
    · rw [createTxoBuffer, ← hpda, ensureTxoBufferExists, hpresent,
        if_neg fun hempty => hne hempty.2, if_pos (by dsimp only; omega), contents_batch]
      rfl
    · rw [hpresent]
      dsimp only
      omega

theorem createTxoBuffer_mem {ix : Instruction} (hpda : k = deriveTxoBufferPda p programId operator)
    (hok : createTxoBuffer p l programId payer operator maxWrites builder landed = .ok ixs)
    (hmem : ix ∈ ixs) :
    ix = txoBufferInit programId k operator ∨
      (∃ n resize batchId height finalize,
        ix = txoBufferSetLen programId k payer operator n resize batchId height finalize) ∨
      ∃ batchId offset x, ix = txoBufferWrite programId k operator batchId offset x := by
  simp only [createTxoBuffer, ← hpda, bind_ok, Prod.exists, pure_ok] at hok
  obtain ⟨start, batchId, hstart, rfl⟩ := hok
  rcases List.mem_append.mp hmem with hinit | hbatch
  · unfold ensureTxoBufferExists at hstart
    split at hstart
    · cases hstart
      exact .inl (List.mem_singleton.mp hinit)
    · split at hstart
      · cases hstart
        cases hinit
      · cases hstart
  · rcases List.mem_cons.mp hbatch with rfl | hbatch
    · exact .inr (.inl ⟨_, _, _, _, _, rfl⟩)
    · split at hbatch
      · rcases List.mem_append.mp hbatch with hwrite | hfinal
        · obtain ⟨⟨offset, data⟩, -, rfl⟩ := List.mem_map.mp hwrite
          exact .inr (.inr ⟨_, _, _, rfl⟩)
        · exact .inr (.inl ⟨_, _, _, _, _, List.mem_singleton.mp hfinal⟩)
      · cases hbatch

theorem header_present {inv : Invocation} {contract : AccountInfo} {accounts : List AccountInfo}
    {tag : UInt8} {rest : Bytes} (haccounts : inv.accounts = contract :: accounts)
    (htag : tag.toNat ≠ 0) (hok : processInstruction p inv l (tag :: rest) = .ok l') :
    48 ≤ (l contract.key).data.length := by
  simp only [processInstruction, haccounts, bind_ok, Prod.exists, nextAccountInfo_ok] at hok
  obtain ⟨_, _, heq, hok⟩ := hok
  cases heq
  split at hok
  · next hzero => exact absurd hzero htag
  · simp only [processSetDataLength, requireSigner, bind_ok, ensure_ok, exists_const, Prod.exists,
      updateHeader_ok] at hok
    obtain ⟨-, -, -, -, -, -, -, -, -, -, ⟨hlong, -⟩, -⟩ := hok
    exact hlong
  · simp only [processWriteData, requireSigner, bind_ok, ensure_ok, exists_const,
      Prod.exists] at hok
    obtain ⟨-, -, -, -, -, -, hlong, -⟩ := hok
    exact hlong
  · cases hok

theorem Prepared.present {a : Account} (ha : Prepared programId operator a)
    (hlong : 48 ≤ a.data.length) :
    ∃ h body, a = ⟨programId, contents h body⟩ ∧ h.authorizedWriter = operator := by
  rcases ha with rfl | hpresent
  · exact absurd hlong (by decide)
  · exact hpresent

theorem prepared_setData (hk : l k = ⟨programId, contents h body⟩) {h₁ : Header} {body₁ : Bytes}
    (hwriter : h₁.authorizedWriter = operator) :
    Prepared programId operator (l.setData k (contents h₁ body₁) k) := by
  refine .inr ⟨h₁, body₁, ?_, hwriter⟩
  rw [setData_self, hk]

/-- No instruction of an upload takes the buffer away from the operator. -/
theorem prepared_step {l₀ : Ledger} {ix : Instruction}
    (hpda : k = deriveTxoBufferPda p programId operator)
    (hsend : createTxoBuffer p l₀ programId payer operator maxWrites builder landed = .ok ixs)
    (hmem : ix ∈ ixs)
    (hl : Prepared programId operator (l k))
    (hok : processInstruction p (ix.invocation now) l ix.data = .ok l') :
    Prepared programId operator (l' k) := by
  rcases createTxoBuffer_mem hpda hsend hmem with
    rfl | ⟨n, resize, batchId, height, finalize, rfl⟩ | ⟨batchId, offset, x, rfl⟩
  · rcases hl with habsent | ⟨h, body, hpresent, -⟩
    · rw [init_ok hpda habsent, Except.ok.injEq] at hok
      rw [← hok, Function.update_self]
      exact .inr ⟨_, _, rfl, rfl⟩
    · rw [init_present hpda hpresent, Except.ok.injEq] at hok
      rw [← hok]
      exact prepared_setData hpresent rfl
  · obtain ⟨h, body, hpresent, hwriter⟩ := hl.present (header_present rfl (by decide) hok)
    obtain ⟨h₁, hh₁, -, rfl⟩ := (setLen_ok hpresent).mp hok
    have hwriter₁ := tagBatch_writer hh₁
    rw [hwriter] at hwriter₁
    exact prepared_setData hpresent hwriter₁
  · obtain ⟨h, body, hpresent, hwriter⟩ := hl.present (header_present rfl (by decide) hok)
    obtain ⟨-, h₁, hh₁, -, rfl⟩ := (write_ok hpresent).mp hok
    apply prepared_setData hpresent
    rw [reached_writer, handleBatchTransition_writer hh₁, hwriter]

theorem prepared_sent {l₀ : Ledger} {sent : List Instruction}
    (hpda : k = deriveTxoBufferPda p programId operator)
    (hsend : createTxoBuffer p l₀ programId payer operator maxWrites builder landed = .ok ixs)
    (hsub : sent ⊆ ixs) (hl : Prepared programId operator (l k))
    (hok : sendAll p now l sent = .ok l') : Prepared programId operator (l' k) := by
  induction sent generalizing l with
  | nil =>
    cases hok
    exact hl
  | cons ix sent ih =>
    rw [← List.singleton_append, sendAll_append, bind_ok] at hok
    obtain ⟨l₁, hl₁, hok⟩ := hok
    rw [sendAll_single] at hl₁
    have hmem : ix ∈ ixs := hsub List.mem_cons_self
    exact ih (fun _ h => hsub (List.mem_cons_of_mem _ h)) (prepared_step hpda hsend hmem hl hl₁) hok

/-- The ledgers after any number of uploads of the operator, each of them complete or given up
after some of its instructions, with other work that leaves the buffer alone in between. -/
inductive Left (p : Platform) (programId operator : Pubkey) : Ledger → Prop
  | absent {l : Ledger} :
      l (deriveTxoBufferPda p programId operator) = ⟨SYSTEM_PROGRAM_ID, []⟩ →
      Left p programId operator l
  | upload {l l' : Ledger} {now : ℤ} {payer : Pubkey} {maxWrites : ℕ} {builder : TxoBufferBuilder}
      {landed : List (ℕ × Bytes)} {ixs sent : List Instruction} :
      Left p programId operator l → landed.Perm builder.chunks →
      createTxoBuffer p l programId payer operator maxWrites builder landed = .ok ixs →
      sent ⊆ ixs → sendAll p now l sent = .ok l' → Left p programId operator l'
  | elsewhere {l l' : Ledger} :
      Left p programId operator l →
      l' (deriveTxoBufferPda p programId operator) = l (deriveTxoBufferPda p programId operator) →
      Left p programId operator l'

theorem Left.prepared (hl : Left p programId operator l) :
    Prepared programId operator (l (deriveTxoBufferPda p programId operator)) := by
  induction hl with
  | absent habsent => exact .inl habsent
  | upload _ _ hsend hsub hok ih => exact prepared_sent rfl hsend hsub ih hok
  | elsewhere _ hsame ih =>
    rw [hsame]
    exact ih

def UploadFinishes (p : Platform) (now : ℤ) (l : Ledger) (programId payer operator : Pubkey)
    (maxWrites : ℕ) (builder : TxoBufferBuilder) (landed : List (ℕ × Bytes)) : Prop :=
  ∃ ixs l', createTxoBuffer p l programId payer operator maxWrites builder landed = .ok ixs ∧
    sendAll p now l ixs = .ok l' ∧
    Finished builder (l' (deriveTxoBufferPda p programId operator)).data

theorem uploadBatch_stopped (hk : l k = ⟨programId, contents h body⟩)
    (hs : Startable operator h batchId) (hok : sendAll p now l
      (uploadBatch programId k payer operator batchId 0 builder landed) = .ok l') :
    (txoBufferHeader (l' k).data).finalizedStatus = 0 := by
  rw [uploadBatch, if_neg (Nat.lt_irrefl 0), sendAll_single] at hok
  obtain ⟨h₁, hh₁, -, rfl⟩ := (setLen_ok hk).mp hok
  obtain ⟨-, rfl⟩ := (tagBatch_start hs).mp hh₁
  rw [setData_self, contents_header]
  rfl

theorem Prepared.finishes_iff (hpda : k = deriveTxoBufferPda p programId operator)
    (hl : Prepared programId operator (l k)) (hcount : builder.indices.length ≤ 65534)
    (hperm : landed.Perm builder.chunks) :
    UploadFinishes p now l programId payer operator maxWrites builder landed ↔
      0 < maxWrites ∧ payer = operator ∧ Fits builder (l k) := by
  obtain ⟨start, batchId, hcreate, l₁, h, body, hstart, hk, hbody, hs⟩ :
      ∃ start batchId, createTxoBuffer p l programId payer operator maxWrites builder landed =
        .ok (start ++ uploadBatch programId k payer operator batchId maxWrites builder landed) ∧
          _ :=
    createTxoBuffer_ok hpda hl
  have hbatch (hwrites : 0 < maxWrites) (l' : Ledger) : sendAll p now l (start ++ uploadBatch
        programId k payer operator batchId maxWrites builder landed) = .ok l' ↔
      payer = operator ∧ Fits builder (l k) ∧
        l' = l₁.setData k (contents (finished h batchId builder) builder.serializeAll) := by
    rw [sendAll_append, hstart, Fits, ← hbody, Nat.mul_comm]
    exact uploadBatch_sent_iff hk hs hcount hperm hwrites
  constructor
  · rintro ⟨ixs, l', hixs, hsent, hfinished⟩
    rw [hcreate, Except.ok.injEq] at hixs
    rw [← hixs] at hsent
    rcases Nat.eq_zero_or_pos maxWrites with rfl | hwrites
    · rw [sendAll_append, hstart] at hsent
      have hfinal := hfinished.finalized
      rw [← hpda, uploadBatch_stopped hk hs hsent] at hfinal
      cases hfinal
    · obtain ⟨hpayer, hfits, -⟩ := (hbatch hwrites l').mp hsent
      exact ⟨hwrites, hpayer, hfits⟩
  · rintro ⟨hwrites, hpayer, hfits⟩
    refine ⟨_, _, hcreate, (hbatch hwrites _).mpr ⟨hpayer, hfits, rfl⟩, ?_⟩
    rw [← hpda, setData_self]
    exact finished_contents hcount

/-- The program takes the first signer, which is the payer, for the writer of the buffer, and the
client asks for the whole length at once. So the upload finishes exactly when the payer is the
operator, the outputs fit into what one instruction can add to the buffer, and the client writes
at least one chunk at a time. -/
theorem upload_finishes_iff (hl : Left p programId operator l)
    (hcount : builder.indices.length ≤ 65534) (hperm : landed.Perm builder.chunks) :
    UploadFinishes p now l programId payer operator maxWrites builder landed ↔
      0 < maxWrites ∧ payer = operator ∧
        Fits builder (l (deriveTxoBufferPda p programId operator)) :=
  hl.prepared.finishes_iff rfl hcount hperm

end Upload

section Samples

open LocalCluster (platform operatorKey strangerKey emptyLedger)

def twoChunks : TxoBufferBuilder := ⟨List.replicate 300 7, 100⟩

def manyOutputs : TxoBufferBuilder := ⟨List.replicate 2561 7, 100⟩

/-- Two chunks, of which the second one lands first. -/
theorem two_chunks_finished :
    UploadFinishes platform 0 emptyLedger TXO_BUFFER_BUILDER_PROGRAM_ID operatorKey operatorKey 4
      twoChunks twoChunks.chunks.reverse := by
  have hlength : twoChunks.indices.length = 300 := List.length_replicate
  refine (upload_finishes_iff (.absent rfl) ?_ (List.reverse_perm _)).mpr ⟨by decide, rfl, ?_⟩
  · rw [hlength]
    decide
  · rw [Fits, hlength]
    decide

/-- Neither a payer that is not the operator nor a long list gets through, nor does a client that
writes no chunk at a time. -/
theorem upload_refused : Left platform TXO_BUFFER_BUILDER_PROGRAM_ID operatorKey emptyLedger ∧
    twoChunks.indices.length ≤ 65534 ∧ manyOutputs.indices.length ≤ 65534 ∧
    ¬ UploadFinishes platform 0 emptyLedger TXO_BUFFER_BUILDER_PROGRAM_ID strangerKey operatorKey 4
      twoChunks twoChunks.chunks ∧
    ¬ UploadFinishes platform 0 emptyLedger TXO_BUFFER_BUILDER_PROGRAM_ID operatorKey operatorKey 4
      manyOutputs manyOutputs.chunks ∧
    ¬ UploadFinishes platform 0 emptyLedger TXO_BUFFER_BUILDER_PROGRAM_ID operatorKey operatorKey 0
      twoChunks twoChunks.chunks := by
  have hleft : Left platform TXO_BUFFER_BUILDER_PROGRAM_ID operatorKey emptyLedger := .absent rfl
  have hlength : manyOutputs.indices.length = 2561 := List.length_replicate
  have hcount : manyOutputs.indices.length ≤ 65534 := by
    rw [hlength]
    decide
  have hfew : twoChunks.indices.length ≤ 65534 := by
    rw [twoChunks, List.length_replicate]
    decide
  refine ⟨hleft, hfew, hcount, ?_, ?_, ?_⟩
  · rw [hleft.prepared.finishes_iff rfl hfew (.refl _)]
    intro h
    exact absurd h.2.1 (by decide)
  · rw [hleft.prepared.finishes_iff rfl hcount (.refl _)]
    rintro ⟨-, -, hfits⟩
    rw [Fits, hlength] at hfits
    exact absurd hfits (by decide)
  · rw [hleft.prepared.finishes_iff rfl hfew (.refl _)]
    intro h
    exact absurd h.1 (Nat.lt_irrefl 0)

end Samples

end TxoUpload
