import PsyDogeBridge.TxoUpload

/-! The generic buffer program, and the upload of a byte string into a new buffer. The chunks of
a batch are written at the same time, so that they land in any order, and a write that is sent
again can land twice. -/
namespace GenericBuffer

open PodLayout CheckedSteps SolanaRuntime BridgeData
open PendingMintBuffer (BufferResult requireSigner reallocAccount reinitLen growTowards
  MAX_PERMITTED_DATA_INCREASE)
open BufferSteps (resized resized_length resized_append resized_self)
open TxoBuffer (resized_getElem?)
open ManualClaimClient (Instruction)
open TxoUpload (CHUNK_SIZE Copies copies_slice splice_copies)

section Program

abbrev HEADER_SIZE : ℕ := 32

def authorizedWriter (data : Bytes) : Bytes := data.take HEADER_SIZE

variable (inv : Invocation) (l : Ledger)

def processInit (storage payer : AccountInfo) (rest : Bytes) : BufferResult Ledger := do
  ensure (rest.length = 4) (.program .invalidInstructionData)
  let targetDataSize := (Pod.u32.decode rest).toNat
  let targetTotalSize := HEADER_SIZE + targetDataSize
  let data := (l storage.key).data
  ensure (HEADER_SIZE ≤ data.length) (.program .accountDataTooSmall)
  ensure (authorizedWriter data = List.replicate 32 0) (.program .accountAlreadyInitialized)
  let l ← writeData inv l storage.key (splice data 0 payer.key.toList)
  reallocAccount inv l storage.key payer.key
    (reinitLen (l storage.key).data.length targetTotalSize) true

def verifyWriter (storage payer : AccountInfo) : BufferResult Unit := do
  ensure (HEADER_SIZE ≤ (l storage.key).data.length) (.program .accountDataTooSmall)
  ensure (authorizedWriter (l storage.key).data = payer.key.toList) (.program .illegalOwner)

def processResize (storage payer : AccountInfo) (rest : Bytes) : BufferResult Ledger := do
  ensure (rest.length = 4) (.program .invalidInstructionData)
  let targetDataSize := (Pod.u32.decode rest).toNat
  let targetTotalSize := HEADER_SIZE + targetDataSize
  verifyWriter l storage payer
  reallocAccount inv l storage.key payer.key
    (reinitLen (l storage.key).data.length targetTotalSize) true

def processWriteData (storage payer : AccountInfo) (rest : Bytes) : BufferResult Ledger := do
  ensure (4 ≤ rest.length) (.program .invalidInstructionData)
  let offset := (Pod.u32.decode (rest.take 4)).toNat
  let writeBytes := rest.drop 4
  verifyWriter l storage payer
  let requiredTotalSize := HEADER_SIZE + offset + writeBytes.length
  let l ← growTowards inv l storage.key payer.key requiredTotalSize true
  let data := (l storage.key).data
  ensure (HEADER_SIZE + offset + writeBytes.length ≤ data.length) (.program .accountDataTooSmall)
  writeData inv l storage.key (splice data (HEADER_SIZE + offset) writeBytes)

def processInstruction (instructionData : Bytes) : BufferResult Ledger :=
  match instructionData with
  | [] => .error (.program .invalidInstructionData)
  | tag :: rest => do
    let (storage, accounts) ← nextAccountInfo inv.accounts
    ensure ((l storage.key).owner = inv.programId) (.program .incorrectProgramId)
    let (payer, accounts) ← nextAccountInfo accounts
    let _ ← nextAccountInfo accounts
    requireSigner payer
    match tag.toNat with
    | 0 => processInit inv l storage payer rest
    | 1 => processResize inv l storage payer rest
    | 2 => processWriteData inv l storage payer rest
    | _ => .error (.program .invalidInstructionData)

end Program

def bufferAccounts (account payer : Pubkey) : List AccountInfo :=
  [⟨account, false, true⟩, ⟨payer, true, true⟩, ⟨SYSTEM_PROGRAM_ID, false, false⟩]

def genericBufferInit (programId account payer : Pubkey) (targetSize : UInt32) : Instruction where
  programId := programId
  accounts := bufferAccounts account payer
  data := 0 :: Pod.u32.encode targetSize

def genericBufferWrite (programId account payer : Pubkey) (offset : UInt32) (bytes : Bytes) :
    Instruction where
  programId := programId
  accounts := bufferAccounts account payer
  data := 2 :: (Pod.u32.encode offset ++ bytes)

def createBuffer (now : ℤ) (l : Ledger) (programId buffer payer : Pubkey) (data : Bytes) :
    BufferResult Ledger := do
  let targetSize := UInt32.ofNat data.length
  ensure ((l buffer).owner = SYSTEM_PROGRAM_ID ∧ (l buffer).data = []) (.program .calleeFailed)
  let l := Function.update l buffer ⟨programId, List.replicate 32 0⟩
  let init := genericBufferInit programId buffer payer targetSize
  processInstruction (init.invocation now) l init.data

def chunks (data : Bytes) : List (ℕ × Bytes) :=
  (List.range ((data.length + (CHUNK_SIZE - 1)) / CHUNK_SIZE)).map fun i =>
    (i, slice data (i * CHUNK_SIZE) CHUNK_SIZE)

def batches (maxConcurrentWrites : ℕ) (chunks : List (ℕ × Bytes)) : List (List (ℕ × Bytes)) :=
  (List.range' 0 ((chunks.length + (maxConcurrentWrites - 1)) / maxConcurrentWrites)
    maxConcurrentWrites).map fun batchStart =>
      let batchEnd := min (batchStart + maxConcurrentWrites) chunks.length
      (chunks.drop batchStart).take (batchEnd - batchStart)

def writeGenericBufferChunk (programId buffer payer : Pubkey) (chunk : ℕ × Bytes) : Instruction :=
  genericBufferWrite programId buffer payer (UInt32.ofNat (chunk.1 * CHUNK_SIZE)) chunk.2

/-- The writes in the order in which they land. Every write of a batch lands, maybe more than once,
before the next batch is sent; a write that was sent again can also land later. -/
inductive Lands : List (ℕ × Bytes) → List (List (ℕ × Bytes)) → List (ℕ × Bytes) → Prop where
  | done {earlier} : Lands earlier [] []
  | batch {earlier batch batches landed later} (all : batch ⊆ landed)
      (sent : landed ⊆ earlier ++ batch) (rest : Lands (earlier ++ batch) batches later) :
      Lands earlier (batch :: batches) (landed ++ later)

def sendAll (now : ℤ) (l : Ledger) (ixs : List Instruction) : BufferResult Ledger :=
  ixs.foldlM (fun l ix => processInstruction (ix.invocation now) l ix.data) l

def createGenericBuffer (now : ℤ) (l : Ledger) (programId buffer payer : Pubkey) (data : Bytes)
    (landed : List (ℕ × Bytes)) : BufferResult Ledger := do
  let l ← createBuffer now l programId buffer payer data
  sendAll now l (landed.map (writeGenericBufferChunk programId buffer payer))

section Instructions

variable {now : ℤ} {l : Ledger} {programId k payer : Pubkey} {body : Bytes}

def written (body : Bytes) (offset : ℕ) (x : Bytes) : Bytes :=
  splice (resized body (max body.length (offset + x.length))) offset x

structure ClientInvocation (programId k payer : Pubkey) (inv : Invocation) : Prop where
  program : inv.programId = programId
  accounts : inv.accounts = bufferAccounts k payer
  funds : inv.fundsSuffice = true

namespace ClientInvocation

variable {inv : Invocation}

section

variable (h : ClientInvocation programId k payer inv)
include h

theorem writes : inv.writes k :=
  ⟨⟨k, false, true⟩, by simp [h.accounts, bufferAccounts], rfl, rfl⟩

theorem signs : inv.signs payer :=
  ⟨⟨payer, true, true⟩, by simp [h.accounts, bufferAccounts], rfl, rfl⟩

theorem pays : inv.writes payer :=
  ⟨⟨payer, true, true⟩, by simp [h.accounts, bufferAccounts], rfl, rfl⟩

theorem lists : inv.lists SYSTEM_PROGRAM_ID :=
  ⟨⟨SYSTEM_PROGRAM_ID, false, false⟩, by simp [h.accounts, bufferAccounts], rfl⟩

theorem reallocAccount_ok (ho : (l k).owner = programId) {n : ℕ}
    (hn : n ≤ MAX_PERMITTED_DATA_LENGTH) (r : Bool) :
    reallocAccount inv l k payer n r = .ok (l.setData k (resized (l k).data n)) :=
  BufferSteps.reallocAccount_ok (ho.trans h.program.symm) h.writes h.lists h.funds h.signs h.pays hn

theorem writeData_ok (ho : (l k).owner = programId) (d : Bytes) :
    writeData (ε := Empty) inv l k d = .ok (l.setData k d) :=
  SolanaRuntime.writeData_ok.mpr ⟨.inr ⟨ho.trans h.program.symm, h.writes⟩, rfl⟩

theorem processInstruction_eq (ho : (l k).owner = programId) (rest : Bytes) :
    processInstruction inv l (0 :: rest) =
        processInit inv l ⟨k, false, true⟩ ⟨payer, true, true⟩ rest ∧
      processInstruction inv l (2 :: rest) =
        processWriteData inv l ⟨k, false, true⟩ ⟨payer, true, true⟩ rest := by
  have howner : (l k).owner = inv.programId := ho.trans h.program.symm
  simp [processInstruction, h.accounts, bufferAccounts, nextAccountInfo, requireSigner, ensure,
    howner, bind, Except.bind]

end

end ClientInvocation

theorem init_ok (hk : l k = ⟨programId, List.replicate 32 0⟩) (n : UInt32) :
    processInstruction ((genericBufferInit programId k payer n).invocation now) l
        (genericBufferInit programId k payer n).data =
      .ok (l.setData k (payer.toList ++ List.replicate (min n.toNat 10240) 0)) := by
  have hinv : ClientInvocation programId k payer
      ((genericBufferInit programId k payer n).invocation now) := ⟨rfl, rfl, rfl⟩
  generalize (genericBufferInit programId k payer n).invocation now = inv at hinv
  have ho : (l k).owner = programId := by rw [hk]
  have hlen : payer.toList.length = 32 := Vector.length_toList
  have hwriter : splice (List.replicate 32 0) 0 payer.toList = payer.toList := by
    rw [splice, hlen]
    simp
  have hsize : reinitLen 32 (32 + n.toNat) = payer.toList.length + min n.toNat 10240 := by
    rw [hlen, reinitLen]
    split
    · simp
    · omega
  have hgrown : resized payer.toList (payer.toList.length + min n.toNat 10240) =
      payer.toList ++ List.replicate (min n.toNat 10240) 0 := by
    rw [resized, Nat.add_sub_cancel_left, List.take_of_length_le (Nat.le_add_right _ _)]
  rw [genericBufferInit, (hinv.processInstruction_eq ho _).1]
  simp only [processInit, bind_ok, ensure_ok, exists_const, hk, Pod.encode_length,
    Pod.decode_encode, hwriter, hinv.writeData_ok ho, Except.ok.injEq, exists_eq_left']
  refine ⟨rfl, ?_, ?_, ?_⟩
  · simp
  · simp [authorizedWriter]
  · have ho' : (l.setData k payer.toList k).owner = programId := by rw [setData_owner, ho]
    have hpermitted : payer.toList.length + min n.toNat 10240 ≤ MAX_PERMITTED_DATA_LENGTH := by
      rw [hlen, MAX_PERMITTED_DATA_LENGTH]
      omega
    rw [setData_self]
    dsimp only
    rw [hlen, hsize, hinv.reallocAccount_ok ho' hpermitted, setData_self, setData_setData, hgrown]

theorem write_ok (hk : l k = ⟨programId, payer.toList ++ body⟩) {offset : UInt32} {x : Bytes}
    (hgrow : offset.toNat + x.length ≤ body.length + MAX_PERMITTED_DATA_INCREASE)
    (hroom : 32 + (offset.toNat + x.length) ≤ MAX_PERMITTED_DATA_LENGTH) :
    processInstruction ((genericBufferWrite programId k payer offset x).invocation now) l
        (genericBufferWrite programId k payer offset x).data =
      .ok (l.setData k (payer.toList ++ written body offset.toNat x)) := by
  have hinv : ClientInvocation programId k payer
      ((genericBufferWrite programId k payer offset x).invocation now) := ⟨rfl, rfl, rfl⟩
  generalize (genericBufferWrite programId k payer offset x).invocation now = inv at hinv
  have ho : (l k).owner = programId := by rw [hk]
  have hlen : payer.toList.length = 32 := Vector.length_toList
  have hoffset : (Pod.u32.encode offset).length = 4 := Pod.encode_length _ _
  have hgrown : growTowards inv l k payer (32 + offset.toNat + x.length) true =
      .ok (l.setData k (payer.toList ++
        resized body (max body.length (offset.toNat + x.length)))) := by
    have hcurrent : (l k).data.length = 32 + body.length := by rw [hk, List.length_append, hlen]
    rw [growTowards, hcurrent]
    split
    · have hsize : 32 + body.length + min (32 + offset.toNat + x.length - (32 + body.length))
          MAX_PERMITTED_DATA_INCREASE =
          payer.toList.length + max body.length (offset.toNat + x.length) := by
        rw [hlen]
        omega
      rw [hinv.reallocAccount_ok ho (by omega), hk, hsize, resized_append]
    · have hsize : max body.length (offset.toNat + x.length) = body.length := by omega
      have hsame : payer.toList ++ body = (l k).data := by rw [hk]
      rw [hsize, resized_self, hsame, setData_data_self]
      rfl
  have hnext : l.setData k (payer.toList ++ resized body (max body.length
      (offset.toNat + x.length))) k = ⟨programId, payer.toList ++ resized body (max body.length
        (offset.toNat + x.length))⟩ := by
    rw [setData_self, hk]
  rw [genericBufferWrite, (hinv.processInstruction_eq ho _).2]
  simp only [processWriteData, verifyWriter, authorizedWriter, bind_ok, ensure_ok, exists_const,
    hk, List.length_append, hlen, hoffset, List.take_left' hlen, List.take_left' hoffset,
    List.drop_left' hoffset, Pod.decode_encode, hgrown, Except.ok.injEq, exists_eq_left', hnext,
    resized_length]
  refine ⟨Nat.le_add_right 4 _, ⟨Nat.le_add_right 32 _, trivial⟩, ?_, ?_⟩
  · rw [Nat.add_assoc]
    exact Nat.add_le_add_left (le_max_right _ _) 32
  · have hstart : HEADER_SIZE + offset.toNat = payer.toList.length + offset.toNat := by rw [hlen]
    rw [hinv.writeData_ok (congrArg Account.owner hnext), setData_setData, hstart, splice_append]
    rfl

end Instructions

section Upload

variable {now : ℤ} {l l' : Ledger} {programId k payer : Pubkey} {data body : Bytes} {m s : ℕ}
  {done : List (ℕ × Bytes)} {chunk : ℕ × Bytes}

/-- The body of a buffer in which the chunks of `done` were written: it is not longer than the
data, and where a chunk was written it agrees with the data. -/
structure Holding (data : Bytes) (done : List (ℕ × Bytes)) (body : Bytes) : Prop where
  short : body.length ≤ data.length
  kept : ∀ chunk ∈ done, ∀ j, chunk.1 * CHUNK_SIZE ≤ j → j < chunk.1 * CHUNK_SIZE + CHUNK_SIZE →
    j < data.length → body[j]? = data[j]?

theorem mem_chunks : chunk ∈ chunks data ↔
    chunk.1 * CHUNK_SIZE < data.length ∧
      chunk.2 = slice data (chunk.1 * CHUNK_SIZE) CHUNK_SIZE := by
  simp only [chunks, List.mem_map, List.mem_range]
  constructor
  · rintro ⟨i, hi, rfl⟩
    refine ⟨?_, rfl⟩
    simp only [CHUNK_SIZE] at hi ⊢
    omega
  · rintro ⟨hi, hbytes⟩
    refine ⟨chunk.1, ?_, Prod.ext rfl hbytes.symm⟩
    simp only [CHUNK_SIZE] at hi ⊢
    omega

theorem chunk_end (h : chunk ∈ chunks data) : chunk.1 * CHUNK_SIZE + chunk.2.length =
    min (chunk.1 * CHUNK_SIZE + CHUNK_SIZE) data.length := by
  obtain ⟨hlt, hbytes⟩ := mem_chunks.mp h
  rw [hbytes, slice, List.length_take, List.length_drop]
  omega

theorem mem_take_chunks :
    chunk ∈ (chunks data).take s ↔ chunk ∈ chunks data ∧ chunk.1 < s := by
  simp only [chunks, ← List.map_take, List.take_range, List.mem_map, List.mem_range]
  constructor
  · rintro ⟨i, hi, rfl⟩
    exact ⟨⟨i, by omega, rfl⟩, by dsimp only; omega⟩
  · rintro ⟨⟨i, hi, rfl⟩, hs⟩
    dsimp only at hs
    exact ⟨i, by omega, rfl⟩

theorem chunk_of_byte {j : ℕ} (hj : j < data.length) : ∃ chunk ∈ chunks data,
    chunk.1 = j / CHUNK_SIZE ∧ chunk.1 * CHUNK_SIZE ≤ j ∧
      j < chunk.1 * CHUNK_SIZE + CHUNK_SIZE := by
  simp only [CHUNK_SIZE]
  refine ⟨(j / 900, slice data (j / 900 * 900) 900), mem_chunks.mpr ⟨?_, rfl⟩, rfl, ?_, ?_⟩
  · simp only [CHUNK_SIZE]
    omega
  · dsimp only
    omega
  · dsimp only
    omega

section

variable (h : Holding data done body)
include h

theorem Holding.write (hchunk : chunk ∈ chunks data) :
    Holding data (chunk :: done) (written body (chunk.1 * CHUNK_SIZE) chunk.2) := by
  obtain ⟨hlt, hbytes⟩ := mem_chunks.mp hchunk
  have hend := chunk_end hchunk
  have hshort := h.short
  have hlen : (written body (chunk.1 * CHUNK_SIZE) chunk.2).length =
      max body.length (chunk.1 * CHUNK_SIZE + chunk.2.length) := by
    rw [written, splice_length, resized_length]
    rw [resized_length]
    exact le_max_right _ _
  have hcopies : Copies data (chunk.1 * CHUNK_SIZE, chunk.2) := hbytes ▸ copies_slice hlt.le
  have hfits : chunk.1 * CHUNK_SIZE + chunk.2.length ≤
      (resized body (max body.length (chunk.1 * CHUNK_SIZE + chunk.2.length))).length := by
    rw [resized_length]
    exact le_max_right _ _
  refine ⟨?_, ?_⟩
  · rw [hlen, hend]
    omega
  · intro c hc j hfrom hto hj
    rw [written, splice_copies hcopies hfits]
    dsimp only
    by_cases hcovered : chunk.1 * CHUNK_SIZE ≤ j ∧ j < chunk.1 * CHUNK_SIZE + chunk.2.length
    · rw [if_pos hcovered]
    · rw [if_neg hcovered]
      rcases List.mem_cons.mp hc with rfl | hc
      · exact absurd ⟨hfrom, by omega⟩ hcovered
      · have hkept := h.kept c hc j hfrom hto hj
        have hinside : j < body.length := by
          rw [List.getElem?_eq_getElem hj] at hkept
          exact (List.getElem?_eq_some_iff.mp hkept).1
        rw [resized_getElem? (by omega) hinside, hkept]

theorem Holding.mono {done' : List (ℕ × Bytes)} (hsub : done' ⊆ done) :
    Holding data done' body :=
  ⟨h.short, fun c hc => h.kept c (hsub hc)⟩

theorem Holding.reaches (hdone : (chunks data).take s ⊆ done) :
    min data.length (s * CHUNK_SIZE) ≤ body.length := by
  by_cases hzero : min data.length (s * CHUNK_SIZE) = 0
  · omega
  · have hlast : min data.length (s * CHUNK_SIZE) - 1 < data.length := by omega
    obtain ⟨chunk, hmem, hnumber, hfrom, hto⟩ := chunk_of_byte hlast
    have hs : chunk.1 < s := by
      simp only [CHUNK_SIZE] at hnumber hzero ⊢
      omega
    have hkept := h.kept chunk (hdone (mem_take_chunks.mpr ⟨hmem, hs⟩)) _ hfrom hto hlast
    rw [List.getElem?_eq_getElem hlast] at hkept
    have := (List.getElem?_eq_some_iff.mp hkept).1
    omega

theorem Holding.complete (hdone : chunks data ⊆ done) :
    body = data := by
  apply List.ext_getElem?
  intro j
  by_cases hj : j < data.length
  · obtain ⟨chunk, hmem, -, hfrom, hto⟩ := chunk_of_byte hj
    exact h.kept chunk (hdone hmem) j hfrom hto hj
  · have hshort := h.short
    rw [List.getElem?_eq_none (by omega), List.getElem?_eq_none (by omega)]

end

/-- The writes of an open batch are accepted, in whatever order and however often they land. -/
theorem batch_sent {landed : List (ℕ × Bytes)} (hm : m * CHUNK_SIZE ≤ 10240)
    (hlen : 32 + data.length ≤ MAX_PERMITTED_DATA_LENGTH)
    (hk : l k = ⟨programId, payer.toList ++ body⟩)
    (h : Holding data done body) (hdone : (chunks data).take s ⊆ done)
    (hlanded : landed ⊆ (chunks data).take (s + m)) :
    ∃ body', sendAll now l (landed.map (writeGenericBufferChunk programId k payer)) =
        .ok (l.setData k (payer.toList ++ body')) ∧ Holding data (landed ++ done) body' := by
  induction landed generalizing l body done with
  | nil =>
    refine ⟨body, ?_, h⟩
    have hsame : payer.toList ++ body = (l k).data := by rw [hk]
    rw [hsame, setData_data_self]
    rfl
  | cons chunk landed ih =>
    obtain ⟨hchunk, hrest⟩ := List.cons_subset.mp hlanded
    obtain ⟨hmem, hnumber⟩ := mem_take_chunks.mp hchunk
    have hend := chunk_end hmem
    have hreaches := h.reaches hdone
    have hoffset : (UInt32.ofNat (chunk.1 * CHUNK_SIZE)).toNat = chunk.1 * CHUNK_SIZE := by
      apply UInt32.toNat_ofNat_of_lt'
      have hlt := (mem_chunks.mp hmem).1
      rw [MAX_PERMITTED_DATA_LENGTH] at hlen
      change _ < 4294967296
      omega
    have hgrow : (UInt32.ofNat (chunk.1 * CHUNK_SIZE)).toNat + chunk.2.length ≤
        body.length + MAX_PERMITTED_DATA_INCREASE := by
      rw [hoffset, hend]
      simp only [CHUNK_SIZE, MAX_PERMITTED_DATA_INCREASE] at hm hreaches ⊢
      omega
    have hstep : processInstruction ((writeGenericBufferChunk programId k payer chunk).invocation
        now) l (writeGenericBufferChunk programId k payer chunk).data =
        .ok (l.setData k (payer.toList ++ written body (chunk.1 * CHUNK_SIZE) chunk.2)) := by
      rw [← hoffset]
      exact write_ok hk hgrow (by rw [hoffset, hend]; omega)
    have hnext : l.setData k (payer.toList ++ written body (chunk.1 * CHUNK_SIZE) chunk.2) k =
        ⟨programId, payer.toList ++ written body (chunk.1 * CHUNK_SIZE) chunk.2⟩ := by
      rw [setData_self, hk]
    obtain ⟨body', hsent, hbody'⟩ := ih hnext (h.write hmem)
      (fun c hc => List.mem_cons_of_mem _ (hdone hc)) hrest
    refine ⟨body', ?_, hbody'.mono ?_⟩
    · rw [setData_setData] at hsent
      rw [List.map_cons, sendAll, List.foldlM_cons, hstep]
      exact hsent
    · intro c hc
      simp only [List.cons_append, List.mem_cons, List.mem_append] at hc ⊢
      tauto

theorem batch_eq (all : List (ℕ × Bytes)) :
    (all.drop s).take (min (s + m) all.length - s) = (all.drop s).take m := by
  rw [List.take_eq_take_iff, List.length_drop]
  omega

/-- All writes are accepted, batch by batch. The induction is on the number of batches that are
still to be sent. -/
theorem batches_sent {count : ℕ} {landed : List (ℕ × Bytes)} (hm : m * CHUNK_SIZE ≤ 10240)
    (hlen : 32 + data.length ≤ MAX_PERMITTED_DATA_LENGTH)
    (hk : l k = ⟨programId, payer.toList ++ body⟩)
    (h : Holding data done body) (hdone : (chunks data).take s ⊆ done)
    (hlands : Lands ((chunks data).take s) ((List.range' s count m).map fun batchStart =>
      ((chunks data).drop batchStart).take (min (batchStart + m) (chunks data).length -
        batchStart)) landed) :
    ∃ body' done', sendAll now l (landed.map (writeGenericBufferChunk programId k payer)) =
        .ok (l.setData k (payer.toList ++ body')) ∧ Holding data done' body' ∧
      (chunks data).take (s + count * m) ⊆ done' := by
  induction count generalizing l s body done landed with
  | zero =>
    rw [List.range'_zero, List.map_nil] at hlands
    cases hlands
    obtain ⟨body', hsent, hbody'⟩ : ∃ body', sendAll now l _ = _ ∧ _ :=
      batch_sent hm hlen hk h hdone (List.nil_subset _)
    exact ⟨body', _, hsent, hbody', by simpa using hdone⟩
  | succ count ih =>
    rw [List.range'_succ, List.map_cons] at hlands
    rw [batch_eq] at hlands
    obtain _ | @⟨_, _, _, first, later, hall, hsent, hrest⟩ := hlands
    have htake : (chunks data).take s ++ ((chunks data).drop s).take m =
        (chunks data).take (s + m) := List.take_add.symm
    rw [htake] at hsent hrest
    obtain ⟨body₁, hfirst, hbody₁⟩ : ∃ body₁, sendAll now l _ = _ ∧ _ :=
      batch_sent hm hlen hk h hdone hsent
    have hk₁ : l.setData k (payer.toList ++ body₁) k = ⟨programId, payer.toList ++ body₁⟩ := by
      rw [setData_self, hk]
    have hdone₁ : (chunks data).take (s + m) ⊆ first ++ done := by
      rw [← htake, List.append_subset]
      exact ⟨fun c hc => List.mem_append_right _ (hdone hc),
        fun c hc => List.mem_append_left _ (hall hc)⟩
    obtain ⟨body', done', hlater, hbody', hdone'⟩ := ih hk₁ hbody₁ hdone₁ hrest
    refine ⟨body', done', ?_, hbody', ?_⟩
    · rw [setData_setData] at hlater
      rw [List.map_append, sendAll, List.foldlM_append, ← sendAll, hfirst]
      exact hlater
    · have hcount : s + (count + 1) * m = s + m + count * m := by ring
      rw [hcount]
      exact hdone'

theorem createBuffer_ok (hfresh : l k = ⟨SYSTEM_PROGRAM_ID, []⟩)
    (hlen : data.length < 2 ^ 32 - 32) : createBuffer now l programId k payer data =
      .ok (Function.update l k
        ⟨programId, payer.toList ++ List.replicate (min data.length 10240) 0⟩) := by
  have hk : Function.update l k ⟨programId, List.replicate 32 0⟩ k =
      (⟨programId, List.replicate 32 0⟩ : Account) := Function.update_self ..
  have hsize : (UInt32.ofNat data.length).toNat = data.length := by
    apply UInt32.toNat_ofNat_of_lt'
    change _ < 4294967296
    omega
  simp only [createBuffer, bind_ok, ensure_ok, exists_const]
  refine ⟨⟨congrArg Account.owner hfresh, congrArg Account.data hfresh⟩, ?_⟩
  rw [init_ok hk, hsize, Ledger.setData, hk, Function.update_idem]

theorem uploaded {maxConcurrentWrites : ℕ} {landed : List (ℕ × Bytes)}
    (hone : 1 ≤ maxConcurrentWrites) (hgrow : maxConcurrentWrites * CHUNK_SIZE ≤ 10240)
    (hroom : 32 + data.length ≤ MAX_PERMITTED_DATA_LENGTH) (hfresh : l k = ⟨SYSTEM_PROGRAM_ID, []⟩)
    (hlands : Lands [] (batches maxConcurrentWrites (chunks data)) landed) :
    createGenericBuffer now l programId k payer data landed =
      .ok (Function.update l k ⟨programId, payer.toList ++ data⟩) := by
  have hlen : data.length < 2 ^ 32 - 32 := by
    rw [MAX_PERMITTED_DATA_LENGTH] at hroom
    omega
  have hcreated : createBuffer now l programId k payer data = _ := createBuffer_ok hfresh hlen
  generalize hl₁ : Function.update l k (⟨programId, payer.toList ++
    List.replicate (min data.length 10240) 0⟩ : Account) = l₁ at hcreated
  have hk₁ : l₁ k = ⟨programId, payer.toList ++ List.replicate (min data.length 10240) 0⟩ := by
    rw [← hl₁, Function.update_self]
  have hempty : Holding data [] (List.replicate (min data.length 10240) 0) := by
    refine ⟨?_, fun c hc => absurd hc List.not_mem_nil⟩
    rw [List.length_replicate]
    exact min_le_left _ _
  obtain ⟨body, done, hsent, hbody, hdone⟩ : ∃ body done, sendAll now l₁ _ = _ ∧ _ :=
    batches_sent hgrow hroom hk₁ hempty (s := 0) (List.Subset.refl []) hlands
  have hall : (chunks data).length ≤
      0 + ((chunks data).length + (maxConcurrentWrites - 1)) / maxConcurrentWrites *
        maxConcurrentWrites := by
    have hdiv := Nat.div_add_mod' ((chunks data).length + (maxConcurrentWrites - 1))
      maxConcurrentWrites
    have hmod := Nat.mod_lt ((chunks data).length + (maxConcurrentWrites - 1))
      (Nat.lt_of_lt_of_le Nat.zero_lt_one hone)
    omega
  rw [List.take_of_length_le hall] at hdone
  rw [createGenericBuffer, hcreated]
  refine hsent.trans ?_
  rw [hbody.complete hdone, ← hl₁, Ledger.setData, Function.update_self, Function.update_idem]

theorem growTowards_bounded {inv : Invocation} {n : ℕ} {refund : Bool}
    (hk : (l k).data.length ≤ MAX_PERMITTED_DATA_LENGTH)
    (hok : growTowards inv l k payer n refund = .ok l') :
    (l' k).data.length ≤ MAX_PERMITTED_DATA_LENGTH := by
  unfold growTowards at hok
  dsimp only at hok
  split at hok
  · simp only [reallocAccount, bind_ok, ensure_ok, exists_const, writeData_ok] at hok
    obtain ⟨-, -, hbound, -, rfl⟩ := hok
    rw [setData_self]
    exact (resized_length _ _).trans_le hbound
  · cases hok
    exact hk

theorem write_bounded
    (hk : (l k).data.length ≤ MAX_PERMITTED_DATA_LENGTH)
    (hok : processInstruction ((writeGenericBufferChunk programId k payer chunk).invocation now) l
      (writeGenericBufferChunk programId k payer chunk).data = .ok l') :
    (l' k).data.length ≤ MAX_PERMITTED_DATA_LENGTH := by
  have hinv : ClientInvocation programId k payer
      ((writeGenericBufferChunk programId k payer chunk).invocation now) := ⟨rfl, rfl, rfl⟩
  generalize (writeGenericBufferChunk programId k payer chunk).invocation now = inv at hinv hok
  have howner : (l k).owner = programId := by
    simp only [writeGenericBufferChunk, genericBufferWrite, processInstruction, bind_ok, ensure_ok,
      exists_const, Prod.exists, nextAccountInfo_ok, hinv.accounts, bufferAccounts,
      hinv.program] at hok
    obtain ⟨_, _, haccounts, howner, -⟩ := hok
    cases haccounts
    exact howner
  rw [writeGenericBufferChunk, genericBufferWrite, (hinv.processInstruction_eq howner _).2] at hok
  simp only [processWriteData, bind_ok, ensure_ok, exists_const] at hok
  obtain ⟨-, -, -, l₁, hgrown, hfits, hwrite⟩ := hok
  obtain ⟨-, rfl⟩ := writeData_ok.mp hwrite
  rw [setData_self]
  exact (splice_length hfits).trans_le (growTowards_bounded hk hgrown)

/-- No account gets longer than the runtime permits, whichever writes land. -/
theorem createGenericBuffer_bounded {landed : List (ℕ × Bytes)}
    (hfresh : l k = ⟨SYSTEM_PROGRAM_ID, []⟩) (hlen : data.length < 2 ^ 32 - 32)
    (hok : createGenericBuffer now l programId k payer data landed = .ok l') :
    (l' k).data.length ≤ MAX_PERMITTED_DATA_LENGTH := by
  rw [createGenericBuffer, createBuffer_ok hfresh hlen] at hok
  have hk : (Function.update l k (⟨programId, payer.toList ++
      List.replicate (min data.length 10240) 0⟩ : Account) k).data.length ≤
      MAX_PERMITTED_DATA_LENGTH := by
    rw [Function.update_self, List.length_append, Vector.length_toList, List.length_replicate,
      MAX_PERMITTED_DATA_LENGTH]
    omega
  generalize Function.update l k (⟨programId, payer.toList ++
    List.replicate (min data.length 10240) 0⟩ : Account) = l₁ at hk hok
  replace hok : sendAll now l₁ (landed.map (writeGenericBufferChunk programId k payer)) = .ok l' :=
    hok
  induction landed generalizing l₁ with
  | nil =>
    cases hok
    exact hk
  | cons chunk landed ih =>
    rw [List.map_cons, sendAll, List.foldlM_cons, bind_ok] at hok
    obtain ⟨l₂, hwritten, hok⟩ := hok
    exact ih l₂ (write_bounded hk hwritten) hok

/-- The upload gets through exactly if header and data are not longer than an account can be:
then all writes are accepted, however they land, and the account is the header and the data. -/
theorem generic_buffer_uploaded_iff {maxConcurrentWrites : ℕ} {landed : List (ℕ × Bytes)}
    (hone : 1 ≤ maxConcurrentWrites) (hgrow : maxConcurrentWrites * CHUNK_SIZE ≤ 10240)
    (hlen : data.length < 2 ^ 32 - 32) (hfresh : l k = ⟨SYSTEM_PROGRAM_ID, []⟩)
    (hlands : Lands [] (batches maxConcurrentWrites (chunks data)) landed) :
    createGenericBuffer now l programId k payer data landed =
        .ok (Function.update l k ⟨programId, payer.toList ++ data⟩) ↔
      HEADER_SIZE + data.length ≤ MAX_PERMITTED_DATA_LENGTH := by
  constructor
  · intro hcreated
    have hbound := createGenericBuffer_bounded hfresh hlen hcreated
    rw [Function.update_self, List.length_append, Vector.length_toList] at hbound
    exact hbound
  · exact fun hroom => uploaded hone hgrow hroom hfresh hlands

/-- Two chunks in one batch; the second one lands first, and once more at the end. -/
theorem two_chunks_uploaded :
    createGenericBuffer 0 (fun _ => ⟨SYSTEM_PROGRAM_ID, []⟩) GENERIC_BUFFER_BUILDER_PROGRAM_ID
        (Vector.replicate 32 5) (Vector.replicate 32 6) (List.replicate 901 7)
        [(1, [7]), (0, List.replicate 900 7), (1, [7])] =
      .ok (Function.update (fun _ => ⟨SYSTEM_PROGRAM_ID, []⟩) (Vector.replicate 32 5)
        ⟨GENERIC_BUFFER_BUILDER_PROGRAM_ID, List.replicate 32 6 ++ List.replicate 901 7⟩) := by
  have hbatches : batches 2 (chunks (List.replicate 901 7)) =
      [[(0, List.replicate 900 7), (1, [7])]] := by decide +kernel
  have hlands : Lands [] (batches 2 (chunks (List.replicate 901 7)))
      ([(1, [7]), (0, List.replicate 900 7), (1, [7])] ++ []) := by
    rw [hbatches]
    generalize List.replicate 900 (7 : UInt8) = first
    refine .batch ?_ ?_ .done
    · simp
    · simp
  have hlen : (List.replicate 901 (7 : UInt8)).length = 901 := List.length_replicate
  refine (generic_buffer_uploaded_iff (by decide) (by decide) ?_ rfl hlands).mpr ?_
  · rw [hlen]
    decide
  · rw [hlen]
    decide

theorem lands_in_order (earlier : List (ℕ × Bytes)) (bs : List (List (ℕ × Bytes))) :
    Lands earlier bs bs.flatten := by
  induction bs generalizing earlier with
  | nil => exact .done
  | cons batch bs ih =>
    exact .batch (List.Subset.refl _) (List.subset_append_right _ _) (ih _)

/-- One byte more than an account can hold: the writes can land, but in no order are they all
accepted. -/
theorem oversized_data_refused :
    (List.replicate 10485729 (7 : UInt8)).length < 2 ^ 32 - 32 ∧
      (∃ landed, Lands [] (batches 1 (chunks (List.replicate 10485729 7))) landed) ∧
      ∀ landed, createGenericBuffer 0 (fun _ => ⟨SYSTEM_PROGRAM_ID, []⟩)
          GENERIC_BUFFER_BUILDER_PROGRAM_ID (Vector.replicate 32 5) (Vector.replicate 32 6)
          (List.replicate 10485729 7) landed ≠
        .ok (Function.update (fun _ => ⟨SYSTEM_PROGRAM_ID, []⟩) (Vector.replicate 32 5)
          ⟨GENERIC_BUFFER_BUILDER_PROGRAM_ID,
            List.replicate 32 6 ++ List.replicate 10485729 7⟩) := by
  have hlen : (List.replicate 10485729 (7 : UInt8)).length = 10485729 := List.length_replicate
  generalize List.replicate 10485729 (7 : UInt8) = data at hlen
  have hsmall : data.length < 2 ^ 32 - 32 := by
    rw [hlen]
    decide
  refine ⟨hsmall, ⟨_, lands_in_order [] _⟩, ?_⟩
  intro landed hcreated
  have hbound := createGenericBuffer_bounded rfl hsmall hcreated
  rw [Function.update_self, List.length_append, List.length_replicate, hlen] at hbound
  exact absurd hbound (by decide)

end Upload

end GenericBuffer
