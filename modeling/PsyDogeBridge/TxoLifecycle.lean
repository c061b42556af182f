import PsyDogeBridge.TxoUpload

/-! The life of one output buffer under any sequence of instructions by any signers: its size covers
its data, batches follow each other, and a finalized batch is frozen. -/
namespace TxoLifecycle

open PodLayout CheckedSteps SolanaRuntime BridgeData TxoBuffer TxoUpload
open BufferSteps (resized_length)
open ManualClaimClient (Instruction)

section Batches

variable {h h₁ : Header} {signer : Pubkey} {batchId height : UInt32} {finalize : Bool}

theorem handleBatchTransition_cases (hok : handleBatchTransition h batchId = .ok h₁) :
    h₁ = h ∧ h.finalizedStatus ≠ 1 ∨
      h₁ = { h with batchId := h.batchId + 1, finalizedStatus := 0 } := by
  unfold handleBatchTransition at hok
  by_cases hsame : batchId = h.batchId
  · rw [if_pos hsame] at hok
    simp only [bind_ok, ensure_ok, exists_const, pure_ok] at hok
    exact .inl ⟨hok.2.symm, hok.1⟩
  · rw [if_neg hsame] at hok
    by_cases hnext : batchId = h.batchId + 1
    · rw [if_pos hnext, pure_ok] at hok
      rw [← hok, hnext]
      exact .inr rfl
    · rw [if_neg hnext] at hok
      cases hok

/-- An instruction that goes through the batch check on a frozen batch starts the next one. -/
structure Follows (h h' : Header) : Prop where
  batch : h'.batchId = h.batchId ∨ h'.batchId = h.batchId + 1
  frozen : h.finalizedStatus = 1 → h'.batchId = h.batchId + 1

theorem handleBatchTransition_follows (hok : handleBatchTransition h batchId = .ok h₁) :
    Follows h h₁ := by
  rcases handleBatchTransition_cases hok with ⟨rfl, hopen⟩ | rfl
  · exact ⟨.inl rfl, fun hfinal => absurd hfinal hopen⟩
  · exact ⟨.inr rfl, fun _ => rfl⟩

theorem tagBatch_follows (hok : tagBatch signer batchId height finalize h = .ok h₁) :
    Follows h h₁ := by
  simp only [tagBatch, bind_ok, ensure_ok, exists_const, pure_ok] at hok
  obtain ⟨-, h₂, hh₂, -, rfl⟩ := hok
  have hf := handleBatchTransition_follows hh₂
  exact ⟨hf.batch, hf.frozen⟩

end Batches

section Facts

variable {op : TxoOp} {d d' : Bytes}

/-- The account is long enough for the data that its header speaks of. -/
def Within (d : Bytes) : Prop := d = [] ∨ HEADER_SIZE + dataSizeOf d ≤ d.length

theorem contents_ne_nil (h : Header) (body : Bytes) : contents h body ≠ [] := by
  intro hnil
  have hlen : (contents h body).length = 48 + body.length := contents_length
  rw [hnil, List.length_nil] at hlen
  omega

theorem within_contents {h : Header} {body : Bytes} :
    Within (contents h body) ↔ h.dataSize.toNat ≤ body.length := by
  rw [Within, or_iff_right (contents_ne_nil h body), dataSizeOf, contents_header, contents_length]
  exact Nat.add_le_add_iff_left

/-- The size in the header after a write is what it was or the end of the write; a `u32` that is
too small for the end makes it smaller. -/
theorem reached_dataSize_le (h : Header) {writeEnd n : ℕ} (hn : h.dataSize.toNat ≤ n)
    (hend : writeEnd ≤ n) : (reached h writeEnd).dataSize.toNat ≤ n := by
  unfold reached
  split
  · rw [UInt32.toNat_ofNat']
    exact (Nat.mod_le _ _).trans hend
  · exact hn

theorem Move.within (hm : Move op d d') (hd : Within d) : Within d' := by
  cases hm with
  | create writer => exact within_contents.mpr (Nat.le_refl 0)
  | assign writer =>
    rw [within_contents] at hd ⊢
    exact hd
  | setLen resize tag fits =>
    rw [within_contents]
    cases resize with
    | true =>
      rw [if_pos rfl, resized_length]
    | false => exact fits rfl
  | write batch fits =>
    rw [within_contents, splice_length fits]
    rw [within_contents, ← handleBatchTransition_dataSize batch] at hd
    exact reached_dataSize_le _ hd fits

theorem reached_batch (h : Header) (writeEnd : ℕ) : (reached h writeEnd).batchId = h.batchId := by
  unfold reached
  split
  · rfl
  · rfl

structure SameBatch (d d' : Bytes) : Prop where
  body : d'.drop HEADER_SIZE = d.drop HEADER_SIZE
  dataSize : (txoBufferHeader d').dataSize = (txoBufferHeader d).dataSize
  dogeBlockHeight : (txoBufferHeader d').dogeBlockHeight = (txoBufferHeader d).dogeBlockHeight
  finalizedStatus : (txoBufferHeader d').finalizedStatus = (txoBufferHeader d).finalizedStatus

theorem SameBatch.refl (d : Bytes) : SameBatch d d := ⟨rfl, rfl, rfl, rfl⟩

theorem Move.batch (hm : Move op d d') (hd : d ≠ []) :
    (txoBufferHeader d').batchId = (txoBufferHeader d).batchId ∨
      (txoBufferHeader d').batchId = (txoBufferHeader d).batchId + 1 := by
  cases hm with
  | create writer => exact absurd rfl hd
  | assign writer =>
    rw [contents_header, contents_header]
    exact .inl rfl
  | setLen resize tag fits =>
    rw [contents_header, contents_header]
    exact (tagBatch_follows tag).batch
  | write batch fits =>
    rw [contents_header, contents_header, reached_batch]
    exact (handleBatchTransition_follows batch).batch

/-- Only the assignment of the writer leaves a frozen batch where it is. -/
theorem Move.frozen (hm : Move op d d') (hd : d ≠ [])
    (hfinal : (txoBufferHeader d).finalizedStatus = 1)
    (hbatch : (txoBufferHeader d').batchId = (txoBufferHeader d).batchId) : SameBatch d d' := by
  cases hm with
  | create writer => exact absurd rfl hd
  | assign writer =>
    constructor
    · rw [contents_drop, contents_drop]
    · rw [contents_header, contents_header]
    · rw [contents_header, contents_header]
    · rw [contents_header, contents_header]
  | setLen resize tag fits =>
    rw [contents_header] at hfinal
    rw [contents_header, contents_header] at hbatch
    exact absurd (((tagBatch_follows tag).frozen hfinal).symm.trans hbatch) (succ_ne _)
  | write batch fits =>
    rw [contents_header] at hfinal
    rw [contents_header, contents_header, reached_batch] at hbatch
    exact absurd (((handleBatchTransition_follows batch).frozen hfinal).symm.trans hbatch)
      (succ_ne _)

end Facts

section Runs

variable {p : Platform} {k : Pubkey} {l l' : Ledger}

/-- A step of the chain, as far as it concerns the buffer: an accepted instruction of the program
on any accounts, or something that leaves the buffer alone. -/
inductive TxoStep (p : Platform) (k : Pubkey) : Ledger → Option (Invocation × Bytes) → Ledger → Prop
  where
  | instruction {l l' : Ledger} {inv : Invocation} {data : Bytes}
      (hok : processInstruction p inv l data = .ok l') : TxoStep p k l (some (inv, data)) l'
  | elsewhere {l l' : Ledger} (hsame : (l' k).data = (l k).data) : TxoStep p k l none l'

theorem instruction_moves {inv : Invocation} {data : Bytes}
    (hok : processInstruction p inv l data = .ok l') (k : Pubkey) :
    (∃ op, Move op (l k).data (l' k).data) ∨ (l' k).data = (l k).data := by
  obtain ⟨contract, -, op, -, -, hoperates⟩ := processInstruction_operates hok
  by_cases hk : k = contract.key
  · rw [hk]
    exact .inl ⟨op, hoperates.moves⟩
  · rw [hoperates.elsewhere k hk]
    exact .inr rfl

theorem TxoStep.moves {call : Option (Invocation × Bytes)} (hs : TxoStep p k l call l') :
    (∃ op, Move op (l k).data (l' k).data) ∨ (l' k).data = (l k).data := by
  cases hs with
  | instruction hok => exact instruction_moves hok k
  | elsewhere hsame => exact .inr hsame

/-- In every state that is reached from a chain without the buffer the account covers the data,
and an instruction that is accepted there keeps the batch or starts the next one; on a finalized
batch it keeps everything, or starts the next one. -/
theorem txo_buffer_life {l₀ : Ledger} {calls : List (Option (Invocation × Bytes))}
    (habsent : (l₀ k).data = []) (run : Run (TxoStep p k) l₀ calls l) :
    Within (l k).data ∧
      ∀ (inv : Invocation) (data : Bytes) (l' : Ledger),
        processInstruction p inv l data = .ok l' → (l k).data ≠ [] →
        ((txoBufferHeader (l' k).data).batchId = (txoBufferHeader (l k).data).batchId ∨
          (txoBufferHeader (l' k).data).batchId = (txoBufferHeader (l k).data).batchId + 1) ∧
        ((txoBufferHeader (l k).data).finalizedStatus = 1 →
          (txoBufferHeader (l' k).data).batchId = (txoBufferHeader (l k).data).batchId →
          SameBatch (l k).data (l' k).data) := by
  constructor
  · refine run.invariant (P := fun l => Within (l k).data) ?_ (.inl habsent)
    intro l call l' hl hs
    rcases hs.moves with ⟨op, hmove⟩ | hsame
    · exact Move.within hmove hl
    · rw [hsame]
      exact hl
  · intro inv data l' hok hpresent
    rcases instruction_moves hok k with ⟨op, hmove⟩ | hsame
    · exact ⟨Move.batch hmove hpresent, Move.frozen hmove hpresent⟩
    · rw [hsame]
      exact ⟨.inl rfl, fun _ _ => .refl _⟩

section Samples

open LocalCluster (platform operatorKey emptyLedger)

def sampleBuffer : Pubkey := deriveTxoBufferPda platform TXO_BUFFER_BUILDER_PROGRAM_ID operatorKey

def firstBatch : TxoBufferBuilder := ⟨[7, 9], 100⟩

def sampleInit : Instruction := txoBufferInit TXO_BUFFER_BUILDER_PROGRAM_ID sampleBuffer operatorKey

def nextBatch : Instruction :=
  txoBufferSetLen TXO_BUFFER_BUILDER_PROGRAM_ID sampleBuffer operatorKey operatorKey 4 true 1
    101 false

theorem sent_run {now : ℤ} {ixs : List Instruction} (hok : sendAll p now l ixs = .ok l') :
    Run (TxoStep p k) l (ixs.map fun ix => some (ix.invocation now, ix.data)) l' := by
  induction ixs generalizing l with
  | nil =>
    cases hok
    exact .nil _
  | cons ix ixs ih =>
    rw [← List.singleton_append, sendAll_append, bind_ok] at hok
    obtain ⟨l₁, hl₁, hok⟩ := hok
    rw [sendAll_single] at hl₁
    exact (Run.single (.instruction hl₁)).append (ih hok)

/-- A batch is uploaded and finalized, the buffer is initialized again, and the next batch begins:
the second step keeps the frozen batch, the third one leaves it. -/
theorem two_batches_live :
    ∃ l₁ l₂ l₃, sendAll platform 0 emptyLedger (sampleInit :: uploadBatch
        TXO_BUFFER_BUILDER_PROGRAM_ID sampleBuffer operatorKey operatorKey 0 4 firstBatch
        firstBatch.chunks) = .ok l₁ ∧
      processInstruction platform (sampleInit.invocation 0) l₁ sampleInit.data = .ok l₂ ∧
      processInstruction platform (nextBatch.invocation 0) l₂ nextBatch.data = .ok l₃ ∧
      (txoBufferHeader (l₁ sampleBuffer).data).finalizedStatus = 1 ∧
      Within (l₁ sampleBuffer).data ∧ SameBatch (l₁ sampleBuffer).data (l₂ sampleBuffer).data ∧
      (txoBufferHeader (l₃ sampleBuffer).data).batchId =
        (txoBufferHeader (l₂ sampleBuffer).data).batchId + 1 ∧
      Within (l₃ sampleBuffer).data := by
  have hinit : processInstruction platform (sampleInit.invocation 0) emptyLedger sampleInit.data =
      .ok _ := init_ok rfl rfl
  have hstart : Startable operatorKey (initialHeader operatorKey) 0 := ⟨rfl, .inr ⟨rfl, rfl, rfl⟩⟩
  have hcreated : Function.update emptyLedger sampleBuffer ⟨TXO_BUFFER_BUILDER_PROGRAM_ID,
      contents (initialHeader operatorKey) []⟩ sampleBuffer = _ := Function.update_self ..
  have hupload : sendAll platform 0 _ (uploadBatch _ _ operatorKey _ _ 4 firstBatch _) = .ok _ :=
    (uploadBatch_sent_iff hcreated hstart (by decide) (.refl _) (by decide)).mpr
      ⟨rfl, by decide, rfl⟩
  generalize hheader : finished (initialHeader operatorKey) 0 firstBatch = h at hupload
  generalize hl₁ : Ledger.setData _ sampleBuffer (contents h firstBatch.serializeAll) =
    l₁ at hupload
  have hsent : sendAll platform 0 emptyLedger (sampleInit :: uploadBatch
      TXO_BUFFER_BUILDER_PROGRAM_ID sampleBuffer operatorKey operatorKey 0 4 firstBatch
      firstBatch.chunks) = .ok l₁ := by
    rw [← List.singleton_append, sendAll_append, sendAll_single]
    exact bind_ok.mpr ⟨_, hinit, hupload⟩
  have hk₁ : l₁ sampleBuffer =
      ⟨TXO_BUFFER_BUILDER_PROGRAM_ID, contents h firstBatch.serializeAll⟩ := by
    rw [← hl₁, setData_self, Function.update_self]
  have hagain : processInstruction platform (sampleInit.invocation 0) l₁ sampleInit.data = .ok _ :=
    init_present rfl hk₁
  generalize hl₂ : l₁.setData sampleBuffer _ = l₂ at hagain
  have hk₂ : l₂ sampleBuffer = ⟨TXO_BUFFER_BUILDER_PROGRAM_ID, contents
      { h with authorizedWriter := operatorKey, initStatus := 1 } firstBatch.serializeAll⟩ := by
    rw [← hl₂, setData_self, hk₁]
  have hnext : processInstruction platform (nextBatch.invocation 0) l₂ nextBatch.data = .ok _ :=
    (setLen_ok hk₂).mpr ⟨_, (tagBatch_start ⟨rfl, .inl (by rw [← hheader]; rfl)⟩).mpr ⟨rfl, rfl⟩,
      by decide, rfl⟩
  generalize hl₃ : l₂.setData sampleBuffer _ = l₃ at hnext
  have hrun := sent_run (k := sampleBuffer) hsent
  have hpresent {l : Ledger} {h : Header} {body : Bytes}
      (hk : l sampleBuffer = ⟨TXO_BUFFER_BUILDER_PROGRAM_ID, contents h body⟩) :
      (l sampleBuffer).data ≠ [] := by
    rw [hk]
    exact contents_ne_nil h body
  have hfinal : (txoBufferHeader (l₁ sampleBuffer).data).finalizedStatus = 1 := by
    rw [hk₁, contents_header, ← hheader]
    rfl
  obtain ⟨hwithin₁, hlife₁⟩ := txo_buffer_life rfl hrun
  obtain ⟨-, hkept⟩ := hlife₁ _ _ _ hagain (hpresent hk₁)
  have hrun₂ := hrun.append (.single (.instruction hagain))
  obtain ⟨-, hlife₂⟩ := txo_buffer_life rfl hrun₂
  obtain ⟨hbatch, -⟩ := hlife₂ _ _ _ hnext (hpresent hk₂)
  refine ⟨l₁, l₂, l₃, hsent, hagain, hnext, hfinal, hwithin₁, hkept hfinal ?_, ?_,
    (txo_buffer_life rfl (hrun₂.append (.single (.instruction hnext)))).1⟩
  · rw [hk₁, hk₂, contents_header, contents_header]
  · refine hbatch.resolve_left fun hsame => ?_
    rw [← hl₃, setData_self, hk₂, contents_header, contents_header, ← hheader] at hsame
    exact absurd hsame (by decide)

end Samples

end Runs

end TxoLifecycle
