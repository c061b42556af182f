import PsyDogeBridge.TxoAssembly

/-! The history client has two ways to rebuild the buffers of a block update: from the parsed
transactions of the operator, which keep the operations of a transaction sorted by their kind, and
from the transactions themselves, which it reads instruction by instruction. -/
namespace OperatorScans

open PodLayout CheckedSteps SolanaRuntime BridgeData MintGroups ClientRpc HistorySync
  ParsedOperations FetchedBlocks TxoAssembly
open ClaimHistory (SignatureInfo)
open OperatorHistory (Watched byteAt)
open BufferReconstruction (scanReinits_found scanReinits_new foldl_scanInsert_eq foldl_scanWrite_eq)

section Client

variable (cx : Codecs) (rpc : HistoryRpc) (config : SyncConfig) (mintBuffer txoBuffer : Pubkey)

section Instructions

variable (accountKeys : List Pubkey) (expectedBuffer : Pubkey) (ix : CompiledInstruction)

def parsePendingMintInsert : Option (UInt16 × List PendingMint) :=
  if ix.data.head? = some PM_TAG_INSERT ∧
      accountAt accountKeys ix.accounts 0 = some expectedBuffer ∧ 3 ≤ ix.data.length then
    some (Pod.u16.decode (slice ix.data 1 2), mintsOf (ix.data.drop 3))
  else none

def parseTxoBufferSetLenWithBatch : Option (UInt32 × UInt32) :=
  if ix.data.head? = some TXO_TAG_SET_LEN ∧
      accountAt accountKeys ix.accounts 0 = some expectedBuffer ∧ 14 ≤ ix.data.length then
    some (Pod.u32.decode (slice ix.data 6 4), Pod.u32.decode (slice ix.data 1 4))
  else none

def parseTxoBufferWriteWithBatch : Option (UInt32 × UInt32 × Bytes) :=
  if ix.data.head? = some TXO_TAG_WRITE ∧
      accountAt accountKeys ix.accounts 0 = some expectedBuffer ∧ 9 ≤ ix.data.length then
    some (Pod.u32.decode (slice ix.data 1 4), Pod.u32.decode (slice ix.data 5 4), ix.data.drop 9)
  else none

/-- A `break` out of the loop over the instructions is an error that carries the variables. -/
def scanSetLen (s : Scan) (batchId size : UInt32) : Except Scan Scan :=
  match s.txoBatchId with
  | none => .ok { s with txoBatchId := some batchId, txoDataSize := size }
  | some current =>
    if current = batchId then .ok { s with txoDataSize := size }
    else if s.foundBlockUpdate then .error s
    else .ok { s with txoWrites := ∅, txoBatchId := some batchId, txoDataSize := size }

/-- The buffer of a `reinit` is not looked at. -/
def scanMintInstruction (s : Scan) : Except Scan Scan :=
  (if ix.data.head? = some 1 then
    if s.foundBlockUpdate then .error s else .ok { s with pendingMints := ∅ }
  else .ok s) >>= fun s =>
    match parsePendingMintInsert accountKeys mintBuffer ix with
    | some (groupIdx, mints) => .ok { s with pendingMints := s.pendingMints.insert groupIdx mints }
    | none => .ok s

def scanTxoInstruction (s : Scan) : Except Scan Scan :=
  (match parseTxoBufferSetLenWithBatch accountKeys txoBuffer ix with
  | some (batchId, size) => scanSetLen s batchId size
  | none => .ok s) >>= fun s =>
    match parseTxoBufferWriteWithBatch accountKeys txoBuffer ix with
    | some (batchId, offset, data) =>
      if s.txoBatchId = none ∨ s.txoBatchId = some batchId then
        .ok { s with txoBatchId := some batchId, txoWrites := s.txoWrites.insert offset data }
      else .ok s
    | none => .ok s

def scanInstruction (s : Scan) : Except Scan Scan :=
  match accountKeys[ix.programIdIndex.toNat]? with
  | none => .ok s
  | some programId =>
    (if programId = config.pendingMintProgramId then scanMintInstruction mintBuffer accountKeys ix s
    else .ok s) >>= fun s =>
      if programId = config.txoBufferProgramId then scanTxoInstruction txoBuffer accountKeys ix s
      else .ok s

end Instructions

def settled {α : Type} : Except α α → α
  | .ok a => a
  | .error a => a

def isBlockUpdateTx (transaction : VersionedTransaction) : Bool :=
  transaction.message.instructions.any
    (looksLikeUpdate config transaction.message.staticAccountKeys)

/-- The loop over the signatures. The second block update that is met ends it. -/
def scanSignatures : Scan → List SignatureInfo → Except ClientRpc.BridgeError Scan
  | s, [] => .ok s
  | s, sigInfo :: rest =>
    match cx.parseSignature sigInfo.signature with
    | .error _ => scanSignatures s rest
    | .ok sig =>
      match rpc.getTransaction sig with
      | .error (.rateLimited ms) => .error (.rateLimited ms)
      | .error _ => scanSignatures s rest
      | .ok tx =>
        match decodeTransaction cx tx.transaction with
        | .ok (some transaction) =>
          if isBlockUpdateTx config transaction = true ∧ s.foundBlockUpdate = true then .ok s
          else
            let s := { s with
              foundBlockUpdate := s.foundBlockUpdate || isBlockUpdateTx config transaction }
            scanSignatures (settled (transaction.message.instructions.foldlM (fun s ix =>
              scanInstruction config mintBuffer txoBuffer transaction.message.staticAccountKeys ix
                s)
              s)) rest
        | _ => scanSignatures s rest

def reconstructBuffersFromOperatorTxs (order : List Write → List Write) (operator : Pubkey)
    (blockUpdateSlot : UInt64) : Except Fault (List PendingMint × List UInt32) := do
  let signatures ← (rpc.getSignaturesForAddress operator ⟨none, none, 100⟩).mapError .failed
  let s ← (scanSignatures cx rpc config mintBuffer txoBuffer .start
    (signatures.filter fun s => decide (s.slot ≤ blockUpdateSlot))).mapError .failed
  let txoIndices ← orFail (assembleTxoIndices order s.txoWrites s.txoDataSize) .panicked
  pure (assembleMints s.pendingMints, txoIndices)

end Client

section Operations

variable (w : Watched)

def act (s : Scan) : Op → Except Scan Scan
  | .reinit _ => if s.foundBlockUpdate then .error s else .ok { s with pendingMints := ∅ }
  | .insert buffer groupIdx mints => .ok (scanInsert w.mintBuffer s (buffer, groupIdx, mints))
  | .setLen buffer batchId size =>
    if buffer = w.txoBuffer then scanSetLen s batchId size else .ok s
  | .write buffer batchId offset data =>
    .ok (scanWrite w.txoBuffer s (buffer, batchId, offset, data))

variable {w} {config : SyncConfig} {accountKeys : List Pubkey} {ix : CompiledInstruction} {s : Scan}

theorem scanMintInstruction_eq : scanMintInstruction w.mintBuffer accountKeys ix s =
    (mintDataOps (accountAt accountKeys ix.accounts 0) ix.data).foldlM (act w) s := by
  rw [mintDataOps, List.foldlM_append, scanMintInstruction]
  congr 1
  · split
    · simp [act]
    · rfl
  · funext s
    rw [parsePendingMintInsert]
    by_cases htag : 3 ≤ ix.data.length ∧ ix.data.head? = some PM_TAG_INSERT
    · cases accountAt accountKeys ix.accounts 0 with
      | none => simp [pure, Except.pure]
      | some k => by_cases hk : k = w.mintBuffer <;> simp [htag, hk, act, scanInsert]
    · rw [if_neg htag, if_neg fun h => htag ⟨h.2.2, h.1⟩]
      rfl

theorem scanTxoInstruction_eq : scanTxoInstruction w.txoBuffer accountKeys ix s =
    (txoDataOps (accountAt accountKeys ix.accounts 0) ix.data).foldlM (act w) s := by
  rw [txoDataOps, List.foldlM_append, scanTxoInstruction]
  congr 1
  · rw [parseTxoBufferSetLenWithBatch]
    by_cases htag : 14 ≤ ix.data.length ∧ ix.data.head? = some TXO_TAG_SET_LEN
    · cases accountAt accountKeys ix.accounts 0 with
      | none => simp [pure, Except.pure]
      | some k => by_cases hk : k = w.txoBuffer <;> simp [htag, hk, act]
    · rw [if_neg htag, if_neg fun h => htag ⟨h.2.2, h.1⟩]
      rfl
  · funext s
    rw [parseTxoBufferWriteWithBatch]
    by_cases htag : 9 ≤ ix.data.length ∧ ix.data.head? = some TXO_TAG_WRITE
    · cases accountAt accountKeys ix.accounts 0 with
      | none => simp [pure, Except.pure]
      | some k =>
        by_cases hk : k = w.txoBuffer <;> simp [htag, hk, act, scanWrite, apply_ite Except.ok]
    · rw [if_neg htag, if_neg fun h => htag ⟨h.2.2, h.1⟩]
      rfl

theorem scanInstruction_eq :
    scanInstruction config w.mintBuffer w.txoBuffer accountKeys ix s =
      (opsOf config.toHistorySyncConfig accountKeys ix).foldlM (act w) s := by
  unfold scanInstruction opsOf
  cases accountKeys[ix.programIdIndex.toNat]? with
  | none => rfl
  | some programId =>
    dsimp only
    rw [List.foldlM_append]
    congr 1
    · split
      · exact scanMintInstruction_eq
      · rfl
    · funext s
      split
      · exact scanTxoInstruction_eq
      · rfl

theorem scanInstructions_eq (ixs : List CompiledInstruction) :
    ixs.foldlM (fun s ix =>
        scanInstruction config w.mintBuffer w.txoBuffer accountKeys ix s) s =
      (ixs.flatMap (opsOf config.toHistorySyncConfig accountKeys)).foldlM (act w) s := by
  induction ixs generalizing s with
  | nil => rfl
  | cons ix ixs ih =>
    rw [List.foldlM_cons, List.flatMap_cons, List.foldlM_append, scanInstruction_eq]
    congr 1
    funext s
    exact ih

end Operations

section Loops

variable {mintBuffer txoBuffer : Pubkey} {s : Scan} {ls : List (Pubkey × UInt32 × UInt32)}
  {ws : List (Pubkey × UInt32 × UInt32 × Bytes)}
  {inserts : List (Pubkey × UInt16 × List PendingMint)}
  {w : Watched} {current batchId size : UInt32}

section Fold

variable {σ β : Type} {f : σ → β → Except σ σ} {l : List β} {a t : σ}

theorem foldlM_snoc_ok (h : l.foldlM f a = .ok t) (b : β) : (l ++ [b]).foldlM f a = f t b := by
  rw [List.foldlM_append, h]
  exact bind_pure (f t b)

theorem foldlM_snoc_error (h : l.foldlM f a = .error t) (b : β) :
    (l ++ [b]).foldlM f a = .error t := by
  rw [List.foldlM_append, h]
  rfl

end Fold

theorem foldl_scanInsert_other (h : ∀ insert ∈ inserts, insert.1 ≠ mintBuffer) :
    inserts.foldl (scanInsert mintBuffer) s = s := by
  induction inserts with
  | nil => rfl
  | cons insert rest ih => grind [scanInsert]

/-- The body of the loop over the `set_len`s, with its `break` as above. -/
def setLen (txoBuffer : Pubkey) (s : Scan) (l : Pubkey × UInt32 × UInt32) : Except Scan Scan :=
  if l.1 = txoBuffer then scanSetLen s l.2.1 l.2.2 else .ok s

theorem scanSetLens_eq : scanSetLens txoBuffer s ls = settled (ls.foldlM (setLen txoBuffer) s) := by
  induction ls generalizing s with
  | nil => rfl
  | cons l rest ih =>
    rw [List.foldlM_cons]
    simp only [scanSetLens, setLen, scanSetLen]
    split
    · cases hbatch : s.txoBatchId with
      | none => exact ih
      | some current =>
        dsimp only
        split
        · exact ih
        · split
          · rfl
          · exact ih
    · exact ih

theorem scanSetLens_snoc {l : Pubkey × UInt32 × UInt32}
    (h : settled (setLen txoBuffer (scanSetLens txoBuffer s ls) l) = scanSetLens txoBuffer s ls) :
    scanSetLens txoBuffer s (ls ++ [l]) = scanSetLens txoBuffer s ls := by
  rw [scanSetLens_eq] at h
  rw [scanSetLens_eq, scanSetLens_eq]
  cases hls : ls.foldlM (setLen txoBuffer) s with
  | error t => rw [foldlM_snoc_error hls]
  | ok t =>
    rw [foldlM_snoc_ok hls]
    rwa [hls] at h

theorem scanSetLens_mints (m : AList fun _ : UInt16 => List PendingMint) :
    scanSetLens txoBuffer { s with pendingMints := m } ls =
      { scanSetLens txoBuffer s ls with pendingMints := m } := by
  induction ls generalizing s with
  | nil => rfl
  | cons l rest ih =>
    simp only [scanSetLens]
    split
    · split
      · rw [← ih]
      · split
        · rw [← ih]
        · split
          · rfl
          · rw [← ih]
    · rw [← ih]

theorem scanSetLens_found :
    (scanSetLens txoBuffer s ls).foundBlockUpdate = s.foundBlockUpdate := by
  induction ls generalizing s with
  | nil => rfl
  | cons l ls ih => grind [scanSetLens]

theorem scanSetLens_none (h : (scanSetLens txoBuffer s ls).txoBatchId = none) :
    scanSetLens txoBuffer s ls = s ∧ ∀ l ∈ ls, l.1 ≠ txoBuffer := by
  induction ls generalizing s with
  | nil => exact ⟨rfl, List.forall_mem_nil _⟩
  | cons l rest ih => grind [scanSetLens]

theorem foldl_scanWrite_mints (m : AList fun _ : UInt16 => List PendingMint) :
    ws.foldl (scanWrite w.txoBuffer) { s with pendingMints := m } =
      { ws.foldl (scanWrite w.txoBuffer) s with pendingMints := m } := by
  rw [foldl_scanWrite_eq, foldl_scanWrite_eq]

theorem foldl_scanWrite_batch (h : s.txoBatchId = some current) :
    (ws.foldl (scanWrite w.txoBuffer) s).txoBatchId = some current := by
  rw [foldl_scanWrite_eq, h]
  rfl

/-- Knowing the batch and the size in advance changes nothing. -/
theorem foldl_scanWrite_known (hend : (ws.foldl (scanWrite w.txoBuffer) s).txoBatchId = none ∨
      (ws.foldl (scanWrite w.txoBuffer) s).txoBatchId = some batchId) :
    ws.foldl (scanWrite w.txoBuffer) { s with txoBatchId := some batchId, txoDataSize := size } =
      { ws.foldl (scanWrite w.txoBuffer) s with
        txoBatchId := some batchId, txoDataSize := size } := by
  rw [foldl_scanWrite_eq] at hend
  rw [foldl_scanWrite_eq, foldl_scanWrite_eq]
  rcases hend with hend | hend
  · obtain ⟨-, hhead⟩ := Option.or_eq_none_iff.mp hend
    have hnil := List.head?_eq_none_iff.mp (Option.map_eq_none_iff.mp hhead)
    simp [hnil]
  · dsimp only at hend ⊢
    rw [hend]
    rfl

theorem scanSetLen_known (h : s.txoBatchId = none ∨ s.txoBatchId = some batchId) :
    scanSetLen s batchId size = .ok { s with txoBatchId := some batchId, txoDataSize := size } := by
  grind [scanSetLen]

theorem scanSetLen_other (hbatch : s.txoBatchId = some current) (hne : current ≠ batchId) :
    scanSetLen s batchId size = if s.foundBlockUpdate then .error s
      else .ok { s with txoWrites := ∅, txoBatchId := some batchId, txoDataSize := size } := by
  grind [scanSetLen]

end Loops

section Transactions

/-- What the operations so far lead to: whether the block update was among them, the batch of the
output buffer that is in force, and whether there may be mints. -/
structure Standing where
  found : Bool
  batch : Option UInt32
  pending : Bool

structure Tracks (s : Scan) (st : Standing) : Prop where
  found : s.foundBlockUpdate = st.found
  batch : s.txoBatchId = st.batch
  mints : st.pending = false → s.pendingMints = ∅
  writes : st.batch = none → s.txoWrites = ∅

/-- The operations of a transaction as the parser keeps them. -/
def sorted (ops : List Op) : ParsedOperatorTx :=
  grouped ⟨0, false, [], [], [], []⟩ ops

variable (w : Watched)

def Standing.after (st : Standing) : Op → Standing
  | .reinit _ => if st.found then st else { st with pending := false }
  | .insert buffer _ _ => if buffer = w.mintBuffer then { st with pending := true } else st
  | .setLen buffer batchId _ =>
    if buffer = w.txoBuffer ∧ (st.found = false ∨ st.batch = none) then
      { st with batch := some batchId }
    else st
  | .write buffer batchId _ _ =>
    if buffer = w.txoBuffer ∧ st.batch = none then { st with batch := some batchId } else st

def Standing.afterAll (st : Standing) (ops : List Op) : Standing :=
  ops.foldl (Standing.after w) st

def Foreign : Op → Prop
  | .reinit _ => False
  | .insert buffer _ _ => buffer ≠ w.mintBuffer
  | .setLen buffer _ _ => buffer ≠ w.txoBuffer
  | .write buffer _ _ _ => buffer ≠ w.txoBuffer

/-- How the operations of a transaction may follow one another. The flag is set once the
transaction is not read any further. -/
inductive Regular (st : Standing) : List Op → Bool → Prop
  | nil : Regular st [] false
  | foreign {ops op stopped} : Regular st ops stopped → Foreign w op →
      Regular st (ops ++ [op]) stopped
  | reinit {ops buffer} : Regular st ops false → st.found = false →
      (∀ insert ∈ (sorted ops).mintInserts, insert.1 ≠ w.mintBuffer) →
      buffer = some w.mintBuffer ∨ w.mintBuffer ∈ (sorted ops).mintReinits ∨ st.pending = false →
      Regular st (ops ++ [.reinit buffer]) false
  | reinitAfter {ops buffer stopped} : Regular st ops stopped → st.found = true →
      Regular st (ops ++ [.reinit buffer]) true
  | insert {ops groupIdx mints} : Regular st ops false → mints ≠ [] →
      Regular st (ops ++ [.insert w.mintBuffer groupIdx mints]) false
  | setLen {ops batchId size} : Regular st ops false →
      (st.afterAll w ops).batch = none ∨ (st.afterAll w ops).batch = some batchId →
      Regular st (ops ++ [.setLen w.txoBuffer batchId size]) false
  | setLenOther {ops batchId size current} : Regular st ops false → st.found = false →
      (st.afterAll w ops).batch = some current → current ≠ batchId →
      (∀ write ∈ (sorted ops).txoWrites, write.1 = w.txoBuffer → write.2.1 ≠ batchId) →
      Regular st (ops ++ [.setLen w.txoBuffer batchId size]) false
  | setLenAfter {ops batchId size current stopped} : Regular st ops stopped → st.found = true →
      (st.afterAll w ops).batch = some current → current ≠ batchId →
      st.batch ≠ none ∨ (∃ setLen ∈ (sorted ops).txoSetLens, setLen.1 = w.txoBuffer) →
      Regular st (ops ++ [.setLen w.txoBuffer batchId size]) true
  | write {ops batchId offset data} : Regular st ops false →
      Regular st (ops ++ [.write w.txoBuffer batchId offset data]) false
  | writeOther {ops batchId offset data current stopped} : Regular st ops stopped →
      (st.afterAll w ops).batch = some current → current ≠ batchId →
      Regular st (ops ++ [.write w.txoBuffer batchId offset data]) stopped

def rebuilt (s : Scan) (ops : List Op) : Scan :=
  scanBuffers w.mintBuffer w.txoBuffer s (sorted ops)

def sized (s : Scan) (ops : List Op) : Scan :=
  scanSetLens w.txoBuffer s (sorted ops).txoSetLens

structure Scanned (s : Scan) (st : Standing) (ops : List Op) (stopped : Bool) : Prop where
  run : ops.foldlM (act w) s = if stopped then .error (rebuilt w s ops) else .ok (rebuilt w s ops)
  tracks : Tracks (rebuilt w s ops) (st.afterAll w ops)
  lens : stopped = false →
    (sorted ops).txoSetLens.foldlM (setLen w.txoBuffer) s = .ok (sized w s ops)

variable {w} {s s' : Scan} {st : Standing} {ops : List Op} {op : Op} {stopped : Bool}
  {batchId size current : UInt32}

theorem Tracks.act (h : Tracks s st) (hact : act w s op = .ok s') : Tracks s' (st.after w op) := by
  obtain ⟨hfound, hbatch, hmints, hwrites⟩ := h
  cases op with
  | reinit buffer => grind [OperatorScans.act, Standing.after, Tracks]
  | insert buffer groupIdx mints => grind [OperatorScans.act, Standing.after, Tracks, scanInsert]
  | setLen buffer batchId size => grind [OperatorScans.act, Standing.after, Tracks, scanSetLen]
  | write buffer batchId offset data => grind [OperatorScans.act, Standing.after, Tracks, scanWrite]

theorem sorted_snoc : sorted (ops ++ [op]) = grouped (sorted ops) [op] :=
  grouped_append _ _

theorem afterAll_snoc : st.afterAll w (ops ++ [op]) = (st.afterAll w ops).after w op :=
  List.foldl_append

/-- The two buffers have nothing to do with one another. -/
theorem rebuilt_eq : rebuilt w s ops =
    { (sorted ops).txoWrites.foldl (scanWrite w.txoBuffer) (sized w s ops) with
      pendingMints := ((sorted ops).mintInserts.foldl (scanInsert w.mintBuffer)
        (scanReinits w.mintBuffer s (sorted ops).mintReinits)).pendingMints } := by
  rw [rebuilt, sized, scanBuffers]
  set t := (sorted ops).mintInserts.foldl (scanInsert w.mintBuffer)
    (scanReinits w.mintBuffer s (sorted ops).mintReinits)
  have ht : t = { s with pendingMints := t.pendingMints } := by
    rw [show t = _ from foldl_scanInsert_eq _]
    by_cases hfound : s.foundBlockUpdate = true
    · rw [scanReinits_found hfound]
    · rw [scanReinits_new (Bool.eq_false_of_not_eq_true hfound)]
      split <;> rfl
  rw [ht, scanSetLens_mints, foldl_scanWrite_mints]

theorem sized_found : (sized w s ops).foundBlockUpdate = s.foundBlockUpdate := scanSetLens_found

theorem rebuilt_found : (rebuilt w s ops).foundBlockUpdate = s.foundBlockUpdate := by
  rw [rebuilt_eq, foldl_scanWrite_eq]
  exact sized_found

theorem rebuilt_batch (h : (sized w s ops).txoBatchId = some current) :
    (rebuilt w s ops).txoBatchId = some current := by
  rw [rebuilt_eq]
  exact foldl_scanWrite_batch h

theorem Scanned.next (h : Scanned w s st ops false)
    (hact : act w (rebuilt w s ops) op = .ok (rebuilt w s (ops ++ [op])))
    (hlens : ∀ l : Pubkey × UInt32 × UInt32, op = .setLen l.1 l.2.1 l.2.2 →
      ∃ u, setLen w.txoBuffer (sized w s ops) l = .ok u) :
    Scanned w s st (ops ++ [op]) false := by
  refine ⟨?_, ?_, fun _ => ?_⟩
  · rw [foldlM_snoc_ok h.run]
    exact hact
  · rw [afterAll_snoc]
    exact h.tracks.act hact
  · rw [sized, sorted_snoc]
    cases op with
    | setLen buffer batchId size =>
      obtain ⟨u, hu⟩ := hlens (buffer, batchId, size) rfl
      have hsnoc := (foldlM_snoc_ok (h.lens rfl) _).trans hu
      rw [scanSetLens_eq]
      exact hsnoc.trans (congrArg (Except.ok ∘ settled) hsnoc).symm
    | insert buffer groupIdx mints =>
      rw [grouped, List.foldl_cons, List.foldl_nil]
      dsimp only
      split <;> exact h.lens rfl
    | _ => exact h.lens rfl

theorem Scanned.stop (h : Scanned w s st ops stopped)
    (hact : stopped = false → act w (rebuilt w s ops) op = .error (rebuilt w s ops))
    (hsame : rebuilt w s (ops ++ [op]) = rebuilt w s ops)
    (hst : (st.afterAll w ops).after w op = st.afterAll w ops) :
    Scanned w s st (ops ++ [op]) true := by
  refine ⟨?_, ?_, fun h => (by cases h)⟩
  · rw [hsame]
    cases stopped with
    | true => exact foldlM_snoc_error h.run op
    | false =>
      rw [foldlM_snoc_ok h.run]
      exact hact rfl
  · rw [hsame, afterAll_snoc, hst]
    exact h.tracks

theorem act_foreign (s : Scan) (st : Standing) (h : Foreign w op) :
    act w s op = .ok s ∧ st.after w op = st := by
  cases op with
  | reinit buffer => exact h.elim
  | _ => grind [act, Foreign, Standing.after, scanInsert, scanWrite]

theorem rebuilt_setLen {l : Pubkey × UInt32 × UInt32}
    (h : settled (setLen w.txoBuffer (sized w s ops) l) = sized w s ops) :
    rebuilt w s (ops ++ [.setLen l.1 l.2.1 l.2.2]) = rebuilt w s ops := by
  rw [rebuilt_eq, rebuilt_eq, sized, sorted_snoc, grouped, List.foldl_cons, List.foldl_nil]
  simp only [scanSetLens_snoc h, sized]

theorem rebuilt_foreign (h : Foreign w op) : rebuilt w s (ops ++ [op]) = rebuilt w s ops := by
  cases op with
  | reinit buffer => exact h.elim
  | insert buffer groupIdx mints =>
    by_cases hmints : mints = []
    · simp [rebuilt, sorted_snoc, grouped, hmints]
    · simp [rebuilt, sorted_snoc, grouped, hmints, scanBuffers, scanInsert,
        show buffer ≠ w.mintBuffer from h]
  | setLen buffer batchId size =>
    apply rebuilt_setLen (l := (buffer, batchId, size))
    rw [setLen, if_neg h]
    rfl
  | write buffer batchId offset data =>
    simp [rebuilt, sorted_snoc, grouped, scanBuffers, scanWrite, show buffer ≠ w.txoBuffer from h]

theorem Scanned.foreign (h : Scanned w s st ops stopped) (hop : Foreign w op) :
    Scanned w s st (ops ++ [op]) stopped := by
  cases stopped with
  | true =>
    exact h.stop (fun h => (by cases h)) (rebuilt_foreign hop) (act_foreign s _ hop).2
  | false =>
    refine h.next ?_ ?_
    · rw [rebuilt_foreign hop]
      exact (act_foreign _ st hop).1
    · rintro l rfl
      exact ⟨_, if_neg hop⟩

theorem Scanned.setLen_next (h : Scanned w s st ops false)
    (hu : scanSetLen (sized w s ops) batchId size = .ok s')
    (hact : scanSetLen (rebuilt w s ops) batchId size =
      .ok { (sorted ops).txoWrites.foldl (scanWrite w.txoBuffer) s' with
        pendingMints := (rebuilt w s ops).pendingMints }) :
    Scanned w s st (ops ++ [.setLen w.txoBuffer batchId size]) false := by
  have hstep : OperatorScans.setLen w.txoBuffer (sized w s ops) (w.txoBuffer, batchId, size) =
      .ok s' := (if_pos rfl).trans hu
  have hlens : sized w s (ops ++ [.setLen w.txoBuffer batchId size]) = s' := by
    rw [sized, sorted_snoc, scanSetLens_eq]
    exact congrArg settled ((foldlM_snoc_ok (h.lens rfl) _).trans hstep)
  refine h.next ?_ ?_
  · rw [act, if_pos rfl, hact, rebuilt_eq, rebuilt_eq, hlens, sorted_snoc]
    rfl
  · rintro ⟨buffer, b, n⟩ hl
    cases hl
    exact ⟨_, hstep⟩

theorem Scanned.setLen (h : Scanned w s st ops false)
    (hbatch : (st.afterAll w ops).batch = none ∨ (st.afterAll w ops).batch = some batchId) :
    Scanned w s st (ops ++ [.setLen w.txoBuffer batchId size]) false := by
  rw [← h.tracks.batch] at hbatch
  have hu : (sized w s ops).txoBatchId = none ∨ (sized w s ops).txoBatchId = some batchId := by
    cases hu : (sized w s ops).txoBatchId with
    | none => exact .inl rfl
    | some current =>
      rw [rebuilt_batch hu] at hbatch
      exact .inr (hbatch.resolve_left (by simp))
  apply h.setLen_next (scanSetLen_known hu)
  rw [scanSetLen_known hbatch]
  rw [rebuilt_eq] at hbatch
  simp only [rebuilt_eq, foldl_scanWrite_known hbatch]

theorem foldl_scanWrite_other {writes : List (Pubkey × UInt32 × UInt32 × Bytes)}
    (h : s.txoBatchId = some batchId)
    (hother : ∀ e ∈ writes, e.1 = w.txoBuffer → e.2.1 ≠ batchId) :
    writes.foldl (scanWrite w.txoBuffer) s = s := by
  induction writes with
  | nil => rfl
  | cons e writes ih => grind [scanWrite]

theorem Scanned.setLen_other (h : Scanned w s st ops false) (hs : Tracks s st)
    (hfound : st.found = false) (hbatch : (st.afterAll w ops).batch = some current)
    (hne : current ≠ batchId)
    (hwrites : ∀ write ∈ (sorted ops).txoWrites, write.1 = w.txoBuffer → write.2.1 ≠ batchId) :
    Scanned w s st (ops ++ [.setLen w.txoBuffer batchId size]) false := by
  have hnew := hs.found.trans hfound
  have hcurrent := h.tracks.batch.trans hbatch
  have hu : scanSetLen (sized w s ops) batchId size = .ok { sized w s ops with
      txoWrites := ∅, txoBatchId := some batchId, txoDataSize := size } := by
    cases hu : (sized w s ops).txoBatchId with
    | none =>
      obtain ⟨hsame, -⟩ := scanSetLens_none hu
      rw [scanSetLen_known (.inl hu)]
      rw [sized, hsame] at hu ⊢
      rw [hs.writes (hs.batch.symm.trans hu)]
    | some c =>
      have hc := hu.trans ((rebuilt_batch hu).symm.trans hcurrent)
      rw [scanSetLen_other hc hne, if_neg (by simp [sized_found, hnew])]
  apply h.setLen_next hu
  rw [foldl_scanWrite_other rfl hwrites, scanSetLen_other hcurrent hne]
  simp [sized_found, rebuilt_found, hnew]

theorem Scanned.setLen_stop (h : Scanned w s st ops stopped) (hs : Tracks s st)
    (hfound : st.found = true) (hbatch : (st.afterAll w ops).batch = some current)
    (hne : current ≠ batchId)
    (hknown : st.batch ≠ none ∨ ∃ setLen ∈ (sorted ops).txoSetLens, setLen.1 = w.txoBuffer) :
    Scanned w s st (ops ++ [.setLen w.txoBuffer batchId size]) true := by
  have hend := hs.found.trans hfound
  have hcurrent := h.tracks.batch.trans hbatch
  have hu : (sized w s ops).txoBatchId = some current := by
    cases hu : (sized w s ops).txoBatchId with
    | none =>
      obtain ⟨hsame, hforeign⟩ := scanSetLens_none hu
      rcases hknown with hst | ⟨l, hl, hown⟩
      · rw [sized, hsame, hs.batch] at hu
        exact absurd hu hst
      · exact absurd hown (hforeign l hl)
    | some c => exact (rebuilt_batch hu).symm.trans hcurrent
  refine h.stop (fun _ => ?_) (rebuilt_setLen (l := (w.txoBuffer, batchId, size)) ?_) ?_
  · rw [act, if_pos rfl, scanSetLen_other hcurrent hne, if_pos (rebuilt_found.trans hend)]
  · rw [OperatorScans.setLen, if_pos rfl, scanSetLen_other hu hne, if_pos (sized_found.trans hend)]
    rfl
  · have hfound' := h.tracks.found.symm.trans (rebuilt_found.trans hend)
    simp [Standing.after, hbatch, hfound']

theorem Scanned.write (h : Scanned w s st ops false) (offset : UInt32) (data : Bytes) :
    Scanned w s st (ops ++ [.write w.txoBuffer batchId offset data]) false := by
  refine h.next ?_ fun l hl => (by cases hl)
  rw [act, rebuilt, rebuilt, sorted_snoc, grouped, scanBuffers, scanBuffers, List.foldl_cons,
    List.foldl_nil, List.foldl_append]
  rfl

theorem Scanned.write_other (h : Scanned w s st ops stopped)
    (hbatch : (st.afterAll w ops).batch = some current) (hne : current ≠ batchId)
    (offset : UInt32) (data : Bytes) :
    Scanned w s st (ops ++ [.write w.txoBuffer batchId offset data]) stopped := by
  cases stopped with
  | false => exact h.write offset data
  | true =>
    have hcurrent : (scanBuffers w.mintBuffer w.txoBuffer s (sorted ops)).txoBatchId =
      some current := h.tracks.batch.trans hbatch
    refine h.stop (fun h => (by cases h)) ?_ (by simp [Standing.after, hbatch])
    rw [rebuilt, sorted_snoc, grouped, scanBuffers, List.foldl_cons, List.foldl_nil,
      List.foldl_append]
    rw [scanBuffers] at hcurrent
    exact if_neg (by simp [hcurrent, hne])

theorem Scanned.reinit_stop (h : Scanned w s st ops stopped) (hs : Tracks s st)
    (hfound : st.found = true) (buffer : Option Pubkey) :
    Scanned w s st (ops ++ [.reinit buffer]) true := by
  have hend := hs.found.trans hfound
  refine h.stop (fun _ => if_pos (rebuilt_found.trans hend)) ?_ ?_
  · rw [rebuilt, rebuilt, sorted_snoc, grouped, List.foldl_cons, List.foldl_nil, scanBuffers,
      scanBuffers, scanReinits_found hend,
      scanReinits_found hend]
  · rw [Standing.after, if_pos (h.tracks.found.symm.trans (rebuilt_found.trans hend))]

theorem Scanned.reinit (h : Scanned w s st ops false) (hs : Tracks s st)
    (hfound : st.found = false) {buffer : Option Pubkey}
    (hinserts : ∀ insert ∈ (sorted ops).mintInserts, insert.1 ≠ w.mintBuffer)
    (hclear : buffer = some w.mintBuffer ∨ w.mintBuffer ∈ (sorted ops).mintReinits ∨
      st.pending = false) :
    Scanned w s st (ops ++ [.reinit buffer]) false := by
  have hnew := hs.found.trans hfound
  have hcleared : (if w.mintBuffer ∈ (sorted ops).mintReinits ++ buffer.toList then
      { s with pendingMints := ∅ } else s).pendingMints = ∅ := by
    split
    · rfl
    · next hno =>
      rcases hclear with rfl | hmem | hpending
      · simp at hno
      · exact absurd (List.mem_append_left _ hmem) hno
      · exact hs.mints hpending
  have hsized : sized w s (ops ++ [.reinit buffer]) = sized w s ops := by
    rw [sized, sorted_snoc]
    rfl
  refine h.next ?_ fun l hl => (by cases hl)
  rw [act, if_neg (by simp [rebuilt_found, hnew]), rebuilt_eq, rebuilt_eq, hsized, sorted_snoc,
    grouped, List.foldl_cons, List.foldl_nil, foldl_scanInsert_other hinserts,
    foldl_scanInsert_other hinserts, scanReinits_new hnew, scanReinits_new hnew]
  simp only [hcleared]

theorem scanned (hs : Tracks s st) (h : Regular w st ops stopped) : Scanned w s st ops stopped := by
  induction h with
  | nil => exact ⟨rfl, hs, fun _ => rfl⟩
  | foreign _ hop ih => exact ih.foreign hop
  | reinit _ hfound hinserts hclear ih => exact ih.reinit hs hfound hinserts hclear
  | reinitAfter _ hfound ih => exact ih.reinit_stop hs hfound _
  | insert _ hmints ih =>
    refine ih.next ?_ fun l hl => (by cases hl)
    simp [sorted_snoc, grouped, hmints, rebuilt_eq, sized, act, scanInsert]
  | setLen _ hbatch ih => exact ih.setLen hbatch
  | setLenOther _ hfound hbatch hne hwrites ih => exact ih.setLen_other hs hfound hbatch hne hwrites
  | setLenAfter _ hfound hbatch hne hknown ih => exact ih.setLen_stop hs hfound hbatch hne hknown
  | write _ ih => exact ih.write _ _
  | writeOther _ hbatch hne ih => exact ih.write_other hbatch hne _ _

end Transactions

section Reconstructions

/-- A transaction of the operator with what the node lists about it. -/
structure OperatorTx where
  info : SignatureInfo
  transaction : VersionedTransaction

variable (cx : Codecs) (rpc : HistoryRpc) (config : SyncConfig) (w : Watched)

def OperatorTx.ops (t : OperatorTx) : List Op :=
  t.transaction.message.instructions.flatMap
    (opsOf config.toHistorySyncConfig t.transaction.message.staticAccountKeys)

def OperatorTx.parsed (t : OperatorTx) : ParsedOperatorTx :=
  parseOperatorTx config.toHistorySyncConfig t.info.slot t.transaction

/-- The node lists the transactions of the operator and returns each of them. -/
structure Shows (txs : List OperatorTx) : Prop where
  lists : rpc.getSignaturesForAddress w.operator ⟨none, none, 100⟩ = .ok (txs.map OperatorTx.info)
  fetches : ∀ t ∈ txs, ∃ sig tx, cx.parseSignature t.info.signature = .ok sig ∧
    rpc.getTransaction sig = .ok tx ∧ decodeTransaction cx tx.transaction = .ok (some t.transaction)

/-- The transactions up to the second block update are regular. -/
def Alike : Standing → List OperatorTx → Prop
  | _, [] => True
  | st, t :: rest =>
    isBlockUpdateTx config t.transaction = true ∧ st.found = true ∨
      let st := { st with found := st.found || isBlockUpdateTx config t.transaction }
      (∃ stopped, Regular w st (t.ops config) stopped) ∧ Alike (st.afterAll w (t.ops config)) rest

variable {cx rpc config w} {s : Scan} {st : Standing} {t : OperatorTx} {txs : List OperatorTx}

theorem parsed_eq : t.parsed config = { sorted (t.ops config) with
    slot := t.info.slot, isBlockUpdate := isBlockUpdateTx config t.transaction } := by
  rw [OperatorTx.parsed, parseOperatorTx, parseInstructions_eq, Bool.false_or]
  exact @grouped_update ⟨0, false, [], [], [], []⟩ _ _ _

theorem scanSignatures_eq
    (hfetches : ∀ t ∈ txs, ∃ sig tx, cx.parseSignature t.info.signature = .ok sig ∧
      rpc.getTransaction sig = .ok tx ∧
      decodeTransaction cx tx.transaction = .ok (some t.transaction))
    (hs : Tracks s st) (h : Alike config w st txs) :
    scanSignatures cx rpc config w.mintBuffer w.txoBuffer s (txs.map OperatorTx.info) =
      .ok (scanTransactions w.mintBuffer w.txoBuffer s (txs.map (OperatorTx.parsed config))) := by
  induction txs generalizing s st with
  | nil => rfl
  | cons t rest ih =>
    obtain ⟨⟨sig, tx, hsig, htx, hdecode⟩, hrest⟩ := List.forall_mem_cons.mp hfetches
    rw [List.map_cons, List.map_cons, scanSignatures, scanTransactions, parsed_eq]
    simp only [hsig, htx, hdecode]
    rcases h with ⟨hupdate, hfound⟩ | ⟨⟨stopped, hregular⟩, halike⟩
    · have hboth := And.intro hupdate (hs.found.trans hfound)
      rw [if_pos hboth, if_pos hboth]
    · split
      · rfl
      · have hstart : Tracks
            { s with
              foundBlockUpdate := s.foundBlockUpdate || isBlockUpdateTx config t.transaction }
            { st with found := st.found || isBlockUpdateTx config t.transaction } :=
          ⟨by rw [hs.found], hs.batch, hs.mints, hs.writes⟩
        have hscanned := scanned hstart hregular
        rw [scanInstructions_eq, ← OperatorTx.ops, hscanned.run]
        have hsettled (r : Scan) : settled (if stopped then .error r else .ok r) = r := by
          cases stopped <;> rfl
        rw [hsettled]
        exact ih hrest hscanned.tracks halike

/-- What the client keeps of the transactions of at most the given slot. -/
def gathered (config : SyncConfig) (w : Watched) (txs : List OperatorTx) (slot : UInt64) : Scan :=
  scanTransactions w.mintBuffer w.txoBuffer .start
    ((txs.map (OperatorTx.parsed config)).filter fun tx => decide (tx.slot ≤ slot))

theorem reconstructBuffersFromOperatorTxs_eq {slot : UInt64} (shows : Shows cx rpc w txs)
    (alike : Alike config w ⟨false, none, false⟩
      (txs.filter fun t => decide (t.info.slot ≤ slot))) (order : List Write → List Write) :
    reconstructBuffersFromOperatorTxs cx rpc config w.mintBuffer w.txoBuffer order w.operator
        slot =
      orFail (reconstructBuffersFromCache order (txs.map (OperatorTx.parsed config)) w.mintBuffer
        w.txoBuffer slot) .panicked := by
  have hstart : Tracks .start ⟨false, none, false⟩ := ⟨rfl, rfl, fun _ => rfl, fun _ => rfl⟩
  have hinfos : (txs.map OperatorTx.info).filter (fun s => decide (s.slot ≤ slot)) =
      (txs.filter fun t => decide (t.info.slot ≤ slot)).map OperatorTx.info := List.filter_map
  have hparsed : (txs.map (OperatorTx.parsed config)).filter (fun tx => decide (tx.slot ≤ slot)) =
      (txs.filter fun t => decide (t.info.slot ≤ slot)).map (OperatorTx.parsed config) := by
    rw [List.filter_map]
    congr 2
    funext t
    rw [Function.comp_apply, parsed_eq]
  have hscan := scanSignatures_eq (fun t ht => shows.fetches t (List.mem_of_mem_filter ht)) hstart
    alike
  rw [← hinfos] at hscan
  rw [reconstructBuffersFromOperatorTxs, shows.lists, reconstructBuffersFromCache, hparsed]
  simp only [hscan, Except.mapError, bind, Except.bind]
  cases assembleTxoIndices order _ _ <;> rfl

/-- If the transactions are alike for both, the two reconstructions give the same mints and
outputs, each with its own order of the hash map, exactly if there is nothing to assemble or the
writes that were kept are consistent. -/
theorem reconstructions_agree_iff (slot : UInt64) (shows : Shows cx rpc w txs)
    (alike : Alike config w ⟨false, none, false⟩
      (txs.filter fun t => decide (t.info.slot ≤ slot))) :
    (∃ found, ∀ order order' : List Write → List Write,
        (order (gathered config w txs slot).txoWrites.entries).Perm
            (gathered config w txs slot).txoWrites.entries →
        (order' (gathered config w txs slot).txoWrites.entries).Perm
            (gathered config w txs slot).txoWrites.entries →
        reconstructBuffersFromOperatorTxs cx rpc config w.mintBuffer w.txoBuffer order w.operator
            slot = .ok found ∧
          reconstructBuffersFromCache order' (txs.map (OperatorTx.parsed config)) w.mintBuffer
            w.txoBuffer slot = some found) ↔
      (gathered config w txs slot).txoWrites.entries = [] ∨
        (gathered config w txs slot).txoDataSize = 0 ∨
        Consistent (gathered config w txs slot).txoWrites
          (gathered config w txs slot).txoDataSize := by
  have hcache (order : List Write → List Write) : reconstructBuffersFromCache order
      (txs.map (OperatorTx.parsed config)) w.mintBuffer w.txoBuffer slot =
        (assembleTxoIndices order (gathered config w txs slot).txoWrites
          (gathered config w txs slot).txoDataSize).map
            (assembleMints (gathered config w txs slot).pendingMints, ·) := rfl
  have hraw := reconstructBuffersFromOperatorTxs_eq shows alike
  simp only [hraw, orFail_ok, hcache, ← assembled_alike_iff]
  constructor
  · rintro ⟨found, h⟩
    refine ⟨found.2, fun order horder => ?_⟩
    obtain ⟨indices, hindices, rfl⟩ := Option.map_eq_some_iff.mp (h order order horder horder).1
    exact hindices
  · rintro ⟨indices, h⟩
    refine ⟨(assembleMints (gathered config w txs slot).pendingMints, indices),
      fun order order' horder horder' => ⟨?_, ?_⟩⟩
    · rw [h order horder, Option.map_some]
    · rw [h order' horder', Option.map_some]

section Samples

open BufferReconstruction LocalCluster RecordedBuffer

def uploadOf (ixs : List CompiledInstruction) : OperatorTx :=
  ⟨⟨"7", 7, none, none⟩, (transactionOf 7 ixs).transaction⟩

def updateTx : OperatorTx := ⟨⟨"9", 9, none, none⟩, (transactionOf 9 [updateIx]).transaction⟩

def uploadCodecs (ixs : List CompiledInstruction) : Codecs :=
  { sampleCodecs with
    parseSignature := fun s => .ok (Vector.replicate 64 (if s = "7" then 7 else 9))
    base64 := fun s => .ok (if s = "7" then [7] else [9])
    bincode := fun b => .ok (if b = [7] then (uploadOf ixs).transaction else updateTx.transaction) }

def uploadRpc : HistoryRpc where
  getSignaturesForAddress _ _ := .ok [⟨"9", 9, none, none⟩, ⟨"7", 7, none, none⟩]
  getTransaction sig :=
    .ok ⟨9, none, .binary (if sig = Vector.replicate 64 7 then "7" else "9"), none⟩

theorem upload_shows (ixs : List CompiledInstruction) :
    Shows (uploadCodecs ixs) uploadRpc watched [updateTx, uploadOf ixs] := by
  refine ⟨rfl, ?_⟩
  rw [List.forall_mem_cons, List.forall_mem_singleton]
  exact ⟨⟨_, _, rfl, rfl, rfl⟩, ⟨_, _, rfl, rfl, rfl⟩⟩

/-- The `reinit` before the insert ends the reading of the transaction, but not of what the parser
kept of it. -/
theorem reinit_hides_insert :
    Shows (uploadCodecs (mintIxs LocalCluster.depositRecord)) uploadRpc watched
        [updateTx, uploadOf (mintIxs LocalCluster.depositRecord)] ∧
      reconstructBuffersFromOperatorTxs (uploadCodecs (mintIxs LocalCluster.depositRecord))
        uploadRpc sampleConfig mintBufferKey txoBufferKey id operatorKey 9 = .ok ([], []) ∧
      reconstructBuffersFromCache id
        ([updateTx, uploadOf (mintIxs LocalCluster.depositRecord)].map
          (OperatorTx.parsed sampleConfig))
        mintBufferKey txoBufferKey 9 = some ([⟨recipientKey, 990⟩], []) := by
  refine ⟨upload_shows _, ?_, ?_⟩
  · decide +kernel
  · decide +kernel

def wordIx (offset : UInt32) : CompiledInstruction :=
  txoIx (2 :: (Pod.u32.encode 1 ++ Pod.u32.encode offset ++ Pod.u32.encode (offset + 3)))

/-- An insert, and two outputs in two writes. -/
def uploadIxs : List CompiledInstruction :=
  [mintIx (3 :: (Pod.u16.encode 0 ++ LocalCluster.depositRecord)),
    txoIx (1 :: (Pod.u32.encode 8 ++ [1] ++ Pod.u32.encode 1 ++ Pod.u32.encode 11 ++ [0])),
    wordIx 0, wordIx 4]

theorem upload_alike : Alike sampleConfig watched ⟨false, none, false⟩
    ([updateTx, uploadOf uploadIxs].filter fun t => decide (t.info.slot ≤ 9)) := by
  have hfilter : ([updateTx, uploadOf uploadIxs].filter fun t => decide (t.info.slot ≤ 9)) =
      [updateTx, uploadOf uploadIxs] := rfl
  have hupdate : updateTx.ops sampleConfig = [] := by decide +kernel
  have hupload : (uploadOf uploadIxs).ops sampleConfig =
      [] ++ [.insert watched.mintBuffer 0 [⟨recipientKey, 990⟩]] ++
        [.setLen watched.txoBuffer 1 8] ++ [.write watched.txoBuffer 1 0 [3, 0, 0, 0]] ++
        [.write watched.txoBuffer 1 4 [7, 0, 0, 0]] := by decide +kernel
  rw [hfilter]
  refine .inr ⟨⟨false, hupdate ▸ .nil⟩, .inr ⟨⟨false, ?_⟩, trivial⟩⟩
  rw [hupload]
  exact .write (.write (.setLen (.insert .nil (by simp)) (.inl (by decide +kernel))))

theorem upload_consistent : Consistent (gathered sampleConfig watched [updateTx, uploadOf uploadIxs]
    9).txoWrites (gathered sampleConfig watched [updateTx, uploadOf uploadIxs] 9).txoDataSize := by
  have hwrites : (gathered sampleConfig watched [updateTx, uploadOf uploadIxs]
      9).txoWrites.entries = [⟨4, [7, 0, 0, 0]⟩, ⟨0, [3, 0, 0, 0]⟩] := by decide +kernel
  have hsize : (gathered sampleConfig watched [updateTx, uploadOf uploadIxs] 9).txoDataSize =
      8 := by
    decide +kernel
  have hapart : ∀ e ∈ [(⟨4, [7, 0, 0, 0]⟩ : Write), ⟨0, [3, 0, 0, 0]⟩],
      ∀ e' ∈ [(⟨4, [7, 0, 0, 0]⟩ : Write), ⟨0, [3, 0, 0, 0]⟩], ∀ i < 8,
        byteAt e i = none ∨ byteAt e' i = none ∨ byteAt e i = byteAt e' i := by decide
  refine ⟨?_, ?_⟩
  · rw [hwrites, hsize]
    decide
  · rw [hwrites, hsize]
    intro e he e' he' i hi a b ha hb
    rcases hapart e he e' he' i hi with hnone | hnone | hsame
    · cases hnone.symm.trans ha
    · cases hnone.symm.trans hb
    · exact Option.some.inj (ha.symm.trans (hsame.trans hb))

theorem upload_reconstructed : ∃ found,
    reconstructBuffersFromOperatorTxs (uploadCodecs uploadIxs) uploadRpc sampleConfig
        mintBufferKey txoBufferKey id operatorKey 9 = .ok found ∧
      reconstructBuffersFromCache List.reverse
        ([updateTx, uploadOf uploadIxs].map (OperatorTx.parsed sampleConfig)) mintBufferKey
        txoBufferKey 9 = some found := by
  have hiff := reconstructions_agree_iff (w := watched) 9 (upload_shows uploadIxs) upload_alike
  obtain ⟨found, h⟩ := hiff.mpr (.inr (.inr upload_consistent))
  exact ⟨found, h id List.reverse (.refl _) (List.reverse_perm _)⟩

end Samples

end Reconstructions

end OperatorScans
