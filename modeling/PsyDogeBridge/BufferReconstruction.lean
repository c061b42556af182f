import PsyDogeBridge.OperatorHistory
import PsyDogeBridge.ParsedOperations

/-! When the scan of the operator's transactions, newest first, gives back what the buffers held
at a block update. -/
namespace BufferReconstruction

open PodLayout CheckedSteps SolanaRuntime BridgeData MintGroups BridgeCalls BridgeProcessor
  ClientRpc HistorySync BufferSteps UploadedGroups BufferHistory TxoBuffer OperatorHistory
  ParsedOperations

section Tables

variable {α : Type} {β : α → Type} [DecidableEq α]

def insertAll (m : AList β) (es : List (Sigma β)) : AList β :=
  es.foldl (fun m e => m.insert e.1 e.2) m

theorem insertAll_append (m : AList β) (es es' : List (Sigma β)) :
    insertAll m (es ++ es') = insertAll (insertAll m es) es' :=
  List.foldl_append

variable {es : List (Sigma β)}

/-- Entries with one key are the same entry. -/
def Functional (es : List (Sigma β)) : Prop := ∀ e ∈ es, ∀ e' ∈ es, e.1 = e'.1 → e = e'

theorem mem_insertAll {m : AList β} (h : Functional (m.entries ++ es)) {e : Sigma β} :
    e ∈ (insertAll m es).entries ↔ e ∈ m.entries ++ es := by
  induction es generalizing m with
  | nil =>
    rw [List.append_nil]
    rfl
  | cons x es ih =>
    obtain ⟨a, b⟩ := x
    have hinsert (y : Sigma β) : y ∈ (m.insert a b).entries ↔ y = ⟨a, b⟩ ∨ y ∈ m.entries := by
      obtain ⟨k, v⟩ := y
      rw [← AList.mem_lookup_iff]
      by_cases hk : k = a
      · subst hk
        have hsame : (⟨k, v⟩ : Sigma β) ∈ m.entries → (⟨k, v⟩ : Sigma β) = ⟨k, b⟩ := fun hy =>
          h _ (List.mem_append_left _ hy) _ (List.mem_append_right _ List.mem_cons_self) rfl
        rw [AList.lookup_insert, or_iff_left_of_imp hsame, Option.mem_some_iff]
        exact ⟨fun hv => hv ▸ rfl, fun hy => by cases hy; rfl⟩
      · rw [AList.lookup_insert_ne hk, AList.mem_lookup_iff]
        exact (or_iff_right fun hy => hk (congrArg Sigma.fst hy)).symm
    have hmem (y : Sigma β) :
        y ∈ (m.insert a b).entries ++ es ↔ y ∈ m.entries ++ ⟨a, b⟩ :: es := by
      simp only [List.mem_append, hinsert, List.mem_cons]
      tauto
    rw [← hmem]
    exact ih fun y hy z hz => h y ((hmem y).mp hy) z ((hmem z).mp hz)

theorem mem_insertAll_empty (h : Functional es) {e : Sigma β} :
    e ∈ (insertAll ∅ es).entries ↔ e ∈ es :=
  mem_insertAll (m := ∅) h

end Tables

section Parsing

variable (w : Watched) (parsed : ParsedOperatorTx)

def deployed : HistorySyncConfig :=
  .new DOGE_BRIDGE_PROGRAM_ID PENDING_MINT_BUFFER_BUILDER_PROGRAM_ID TXO_BUFFER_BUILDER_PROGRAM_ID

def mintEntryOf (insert : Pubkey × UInt16 × List PendingMint) :
    Option (Sigma fun _ : UInt16 => List PendingMint) :=
  if insert.1 = w.mintBuffer then some ⟨insert.2.1, insert.2.2⟩ else none

def atTxoBuffer {β : Type} (e : Pubkey × β) : Option β :=
  if e.1 = w.txoBuffer then some e.2 else none

def mintEntries : List (Sigma fun _ : UInt16 => List PendingMint) :=
  parsed.mintInserts.filterMap (mintEntryOf w)

def setLens : List (UInt32 × UInt32) :=
  parsed.txoSetLens.filterMap (atTxoBuffer w)

def txoEntries : List (UInt32 × UInt32 × Bytes) :=
  parsed.txoWrites.filterMap (atTxoBuffer w)

def lensOf (ops : List TxoOp) : List (UInt32 × UInt32) :=
  ops.filterMap fun
    | .setLen batchId n => some (batchId, n)
    | _ => none

def batchWrites (ops : List TxoOp) : List (UInt32 × UInt32 × Bytes) :=
  ops.filterMap fun
    | .write batchId offset x => some (batchId, offset, x)
    | _ => none

def mintEntry : UInt16 × Bytes → Option (Sigma fun _ : UInt16 => List PendingMint)
  | (g, x) => if mintsOf x = [] then none else some ⟨g, mintsOf x⟩

def Op.mintEntry : Op → Option (Sigma fun _ : UInt16 => List PendingMint)
  | .insert buffer g ms => if buffer = w.mintBuffer ∧ ms ≠ [] then some ⟨g, ms⟩ else none
  | _ => none

def Op.setLenAt : Op → Option (UInt32 × UInt32)
  | .setLen buffer batchId n => atTxoBuffer w (buffer, batchId, n)
  | _ => none

def Op.writeAt : Op → Option (UInt32 × UInt32 × Bytes)
  | .write buffer batchId offset x => atTxoBuffer w (buffer, batchId, offset, x)
  | _ => none

variable {w parsed} {keys : List Pubkey} {ix : CompiledInstruction}

theorem mintsOf_short {x : Bytes} (h : x.length < 40) : mintsOf x = [] := by
  rw [mintsOf, chunksExact, Nat.div_eq_of_lt h]
  rfl

theorem insertsOf_data (data : Bytes) :
    insertsOf (BufferOp.ofData data).toList =
      if data.head? = some PM_TAG_INSERT then [(Pod.u16.decode (slice data 1 2), data.drop 3)]
      else [] := by
  cases data with
  | nil => rfl
  | cons tag rest =>
    by_cases htag : tag = PM_TAG_INSERT
    · subst htag
      rfl
    · rw [if_neg (by simpa using htag)]
      have hne : tag.toNat ≠ 3 := fun h => htag (UInt8.toNat_inj.mp h)
      dsimp only [BufferOp.ofData, BufferOp.ofTag]
      generalize tag.toNat = n at hne
      split
      case h_4 => exact absurd rfl hne
      all_goals rfl

theorem txoOps_data (data : Bytes) :
    lensOf (TxoOp.ofData data).toList =
        (if 14 ≤ data.length ∧ data.head? = some TXO_TAG_SET_LEN then
          [(Pod.u32.decode (slice data 6 4), Pod.u32.decode (slice data 1 4))]
        else []) ∧
      batchWrites (TxoOp.ofData data).toList =
        (if 9 ≤ data.length ∧ data.head? = some TXO_TAG_WRITE then
          [(Pod.u32.decode (slice data 1 4), Pod.u32.decode (slice data 5 4), data.drop 9)]
        else []) := by
  cases data with
  | nil => exact ⟨rfl, rfl⟩
  | cons tag rest =>
    have hlong (n : ℕ) : n + 1 ≤ (tag :: rest).length ↔ n ≤ rest.length := Nat.succ_le_succ_iff
    have hslice (n k : ℕ) : slice (tag :: rest) (n + 1) k = slice rest n k := rfl
    simp only [List.head?_cons, Option.some_inj, ← UInt8.toNat_inj, hlong, hslice,
      show TXO_TAG_SET_LEN.toNat = 1 from rfl, show TXO_TAG_WRITE.toNat = 2 from rfl, TxoOp.ofData]
    generalize tag.toNat = n
    rcases n with _ | _ | _ | n
    · simp [TxoOp.ofTag, lensOf, batchWrites]
    · by_cases h : 13 ≤ rest.length <;> simp [TxoOp.ofTag, h, lensOf, batchWrites]
    · by_cases h : 8 ≤ rest.length <;> simp [TxoOp.ofTag, h, lensOf, batchWrites]
    · simp [TxoOp.ofTag, lensOf, batchWrites]

theorem grouped_entries (w : Watched) (parsed : ParsedOperatorTx) (ops : List Op) :
    mintEntries w (grouped parsed ops) = mintEntries w parsed ++ ops.filterMap (Op.mintEntry w) ∧
      setLens w (grouped parsed ops) = setLens w parsed ++ ops.filterMap (Op.setLenAt w) ∧
      txoEntries w (grouped parsed ops) = txoEntries w parsed ++ ops.filterMap (Op.writeAt w) := by
  induction ops using List.reverseRecOn with
  | nil => simp [grouped]
  | append_singleton ops op ih =>
    obtain ⟨hmints, hlens, hwrites⟩ := ih
    simp only [List.filterMap_append, ← List.append_assoc, ← hmints, ← hlens, ← hwrites]
    rw [grouped_append]
    generalize grouped parsed ops = p
    have hnil {α : Type} (l : List α) : l = l ++ [] := (List.append_nil l).symm
    cases op with
    | reinit => exact ⟨hnil _, hnil _, hnil _⟩
    | insert buffer g ms =>
      refine ⟨?_, ?_, ?_⟩
      all_goals by_cases hms : ms = [] <;>
        simp [grouped, hms, mintEntries, mintEntryOf, setLens, txoEntries, Op.mintEntry,
          Op.setLenAt, Op.writeAt, List.filterMap_cons]
    | setLen => exact ⟨hnil _, List.filterMap_append, hnil _⟩
    | write => exact ⟨hnil _, hnil _, List.filterMap_append⟩

theorem mintDataOps_entries (w : Watched) (buffer : Option Pubkey) (data : Bytes) :
    (mintDataOps buffer data).filterMap (Op.mintEntry w) = (if buffer = some w.mintBuffer then
        (insertsOf (BufferOp.ofData data).toList).filterMap mintEntry else []) ∧
      (mintDataOps buffer data).filterMap (Op.setLenAt w) = [] ∧
      (mintDataOps buffer data).filterMap (Op.writeAt w) = [] := by
  rw [mintDataOps, insertsOf_data]
  cases buffer with
  | none => split <;> simp [Op.mintEntry, Op.setLenAt, Op.writeAt]
  | some k =>
    by_cases hreinit : data.head? = some 1
    · simp [hreinit, Op.mintEntry, Op.setLenAt, Op.writeAt, PM_TAG_INSERT]
    · by_cases htag : data.head? = some PM_TAG_INSERT
      · by_cases hlong : 3 ≤ data.length
        · by_cases hmints : mintsOf (data.drop 3) = [] <;> by_cases hk : k = w.mintBuffer <;>
            simp [htag, hlong, hmints, hk, Op.mintEntry, Op.setLenAt, Op.writeAt, mintEntry,
              PM_TAG_INSERT, List.filterMap_cons]
        · have hnil : mintsOf (data.drop 3) = [] := mintsOf_short (by simp; omega)
          simp [htag, hlong, mintEntry, hnil, PM_TAG_INSERT]
      · simp [hreinit, htag]

theorem txoDataOps_entries (w : Watched) (buffer : Option Pubkey) (data : Bytes) :
    (txoDataOps buffer data).filterMap (Op.mintEntry w) = [] ∧
      (txoDataOps buffer data).filterMap (Op.setLenAt w) =
        (if buffer = some w.txoBuffer then lensOf (TxoOp.ofData data).toList else []) ∧
      (txoDataOps buffer data).filterMap (Op.writeAt w) =
        (if buffer = some w.txoBuffer then batchWrites (TxoOp.ofData data).toList else []) := by
  rw [txoDataOps, (txoOps_data data).1, (txoOps_data data).2]
  cases buffer with
  | none => simp
  | some k =>
    by_cases hk : k = w.txoBuffer <;>
      simp [hk, apply_ite (List.filterMap _), Op.mintEntry, Op.setLenAt, Op.writeAt, atTxoBuffer,
        List.filterMap_cons]

theorem opsOf_entries (w : Watched) (keys : List Pubkey) (ix : CompiledInstruction) :
    (opsOf deployed keys ix).filterMap (Op.mintEntry w) =
        (insertsOf (mintOp w keys ix).toList).filterMap mintEntry ∧
      (opsOf deployed keys ix).filterMap (Op.setLenAt w) = lensOf (txoOp w keys ix).toList ∧
      (opsOf deployed keys ix).filterMap (Op.writeAt w) = batchWrites (txoOp w keys ix).toList := by
  unfold opsOf mintOp txoOp
  cases hprogram : keys[ix.programIdIndex.toNat]? with
  | none => simp [Calls, hprogram, insertsOf, lensOf, batchWrites]
  | some program =>
    have hcalls (p k : Pubkey) : Calls keys ix p k ↔
        program = p ∧ accountAt keys ix.accounts 0 = some k := by
      rw [Calls, hprogram, Option.some_inj]
    have hif {α : Type} (p k : Pubkey) (l : List α) :
        (if program = p then if accountAt keys ix.accounts 0 = some k then l else [] else []) =
          if Calls keys ix p k then l else [] := by
      simp only [hcalls, ite_and]
    obtain ⟨hm, hml, hmw⟩ := mintDataOps_entries w (accountAt keys ix.accounts 0) ix.data
    obtain ⟨htm, htl, htw⟩ := txoDataOps_entries w (accountAt keys ix.accounts 0) ix.data
    simp only [List.filterMap_append, apply_ite (List.filterMap _), hm, hml, hmw, htm, htl, htw,
      List.filterMap_nil, ite_self, List.append_nil, List.nil_append]
    refine ⟨(hif PENDING_MINT_BUFFER_BUILDER_PROGRAM_ID _ _).trans ?_,
      (hif TXO_BUFFER_BUILDER_PROGRAM_ID _ _).trans ?_,
      (hif TXO_BUFFER_BUILDER_PROGRAM_ID _ _).trans ?_⟩
    all_goals split <;> rfl

/-- The entries of a parsed transaction are those of its top-level instructions. -/
structure Parses (w : Watched) (keys : List Pubkey) (ixs : List CompiledInstruction)
    (parsed : ParsedOperatorTx) : Prop where
  mints : mintEntries w parsed = (insertsOf (ixs.filterMap (mintOp w keys))).filterMap mintEntry
  lens : setLens w parsed = lensOf (ixs.filterMap (txoOp w keys))
  writes : txoEntries w parsed = batchWrites (ixs.filterMap (txoOp w keys))

theorem parses_fold (ixs : List CompiledInstruction) (slot : UInt64) :
    Parses w keys ixs (ixs.foldl (parseOperatorInstruction deployed keys)
      ⟨slot, false, [], [], [], []⟩) := by
  rw [parseInstructions_eq]
  obtain ⟨hmints, hlens, hwrites⟩ := grouped_entries w
    ⟨slot, false || ixs.any (isUpdate deployed keys), [], [], [], []⟩
    (ixs.flatMap (opsOf deployed keys))
  rw [List.filterMap_flatMap] at hmints hlens hwrites
  refine ⟨hmints.trans ?_, hlens.trans ?_, hwrites.trans ?_⟩
  · rw [List.filterMap_eq_flatMap_toList (mintOp w keys), insertsOf, List.filterMap_flatMap,
      List.filterMap_flatMap]
    exact List.flatMap_congr fun ix _ => (opsOf_entries w keys ix).1
  · rw [List.filterMap_eq_flatMap_toList (txoOp w keys), lensOf, List.filterMap_flatMap]
    exact List.flatMap_congr fun ix _ => (opsOf_entries w keys ix).2.1
  · rw [List.filterMap_eq_flatMap_toList (txoOp w keys), batchWrites, List.filterMap_flatMap]
    exact List.flatMap_congr fun ix _ => (opsOf_entries w keys ix).2.2

end Parsing

section Scanning

variable {w : Watched} {s : Scan} {batch : Option UInt32} {tx : ParsedOperatorTx}
  {txs rest : List ParsedOperatorTx}

def writeEntry (write : UInt32 × UInt32 × Bytes) : Write :=
  ⟨write.2.1, write.2.2⟩

/-- The batches of the operations on the output buffer, in the order in which they are read. -/
def batches (w : Watched) (tx : ParsedOperatorTx) : List UInt32 :=
  (setLens w tx).map Prod.fst ++ (txoEntries w tx).map Prod.fst

/-- The `set_len`s of the batch. One of another batch ends the loop over those of a transaction. -/
def ownLens (w : Watched) (batch : Option UInt32) (tx : ParsedOperatorTx) :
    List (UInt32 × UInt32) :=
  (setLens w tx).takeWhile fun l => some l.1 = batch

def ownWrites (w : Watched) (batch : Option UInt32) (tx : ParsedOperatorTx) :
    List (UInt32 × UInt32 × Bytes) :=
  (txoEntries w tx).filter fun e => some e.1 = batch

/-- The length set last. -/
def lastSize (size : UInt32) (lens : List (UInt32 × UInt32)) : UInt32 :=
  lens.foldl (fun _ l => l.2) size

/-- What the transactions add once the block update was met. -/
def extended (w : Watched) (batch : Option UInt32) (s : Scan) (txs : List ParsedOperatorTx) :
    Scan :=
  { s with
    pendingMints := insertAll s.pendingMints (txs.flatMap (mintEntries w))
    txoWrites := insertAll s.txoWrites ((txs.flatMap (ownWrites w batch)).map writeEntry)
    txoDataSize := lastSize s.txoDataSize (txs.flatMap (ownLens w batch))
    txoBatchId := batch }

theorem scanReinits_found (h : s.foundBlockUpdate = true) (mintBuffer : Pubkey)
    (reinits : List Pubkey) : scanReinits mintBuffer s reinits = s := by
  induction reinits with
  | nil => rfl
  | cons buffer rest ih =>
    rw [scanReinits, if_pos h]
    split
    · rfl
    · exact ih

theorem scanReinits_new (h : s.foundBlockUpdate = false) (mintBuffer : Pubkey)
    (reinits : List Pubkey) : scanReinits mintBuffer s reinits =
      if mintBuffer ∈ reinits then { s with pendingMints := ∅ } else s := by
  induction reinits generalizing s with
  | nil => rfl
  | cons buffer rest ih => grind [scanReinits]

theorem foldl_scanInsert_eq (inserts : List (Pubkey × UInt16 × List PendingMint)) :
    inserts.foldl (scanInsert w.mintBuffer) s =
      { s with
        pendingMints := insertAll s.pendingMints (inserts.filterMap (mintEntryOf w)) } := by
  induction inserts generalizing s with
  | nil => rfl
  | cons insert rest ih =>
    rw [List.foldl_cons, ih]
    by_cases hbuffer : insert.1 = w.mintBuffer <;>
      simp [scanInsert, mintEntryOf, hbuffer, insertAll]

theorem foldl_scanWrite_eq (writes : List (Pubkey × UInt32 × UInt32 × Bytes)) :
    writes.foldl (scanWrite w.txoBuffer) s =
      let own := writes.filterMap (atTxoBuffer w)
      let batch := s.txoBatchId.or (own.head?.map Prod.fst)
      { s with
        txoWrites := insertAll s.txoWrites ((own.filter fun e => some e.1 = batch).map writeEntry)
        txoBatchId := batch } := by
  induction writes generalizing s with
  | nil => simp [insertAll]
  | cons e rest ih =>
    rw [List.foldl_cons, ih]
    by_cases hbuffer : e.1 = w.txoBuffer
    · cases hbatch : s.txoBatchId with
      | none => simp [scanWrite, atTxoBuffer, hbuffer, hbatch, insertAll, writeEntry]
      | some current =>
        by_cases hown : current = e.2.1
        · simp [scanWrite, atTxoBuffer, hbuffer, hbatch, hown, insertAll, writeEntry]
        · simp [scanWrite, atTxoBuffer, hbuffer, hbatch, hown, Ne.symm hown]
    · simp [scanWrite, atTxoBuffer, hbuffer]

theorem scanSetLens_eq (hfound : s.foundBlockUpdate = true)
    (lens : List (Pubkey × UInt32 × UInt32)) :
    scanSetLens w.txoBuffer s lens =
      let own := lens.filterMap (atTxoBuffer w)
      let batch := s.txoBatchId.or (own.head?.map Prod.fst)
      { s with
        txoDataSize := lastSize s.txoDataSize (own.takeWhile fun l => some l.1 = batch)
        txoBatchId := batch } := by
  induction lens generalizing s with
  | nil => simp [scanSetLens, lastSize]
  | cons e rest ih =>
    obtain ⟨buffer, b, n⟩ := e
    obtain ⟨mints, writes, size, known, found⟩ := s
    cases hfound
    by_cases hbuffer : buffer = w.txoBuffer
    · have hrest := @ih ⟨mints, writes, n, some b, true⟩ rfl
      cases known with
      | none => simpa [scanSetLens, atTxoBuffer, hbuffer, lastSize] using hrest
      | some current =>
        by_cases hown : current = b
        · simpa [scanSetLens, atTxoBuffer, hbuffer, hown, lastSize] using hrest
        · simp [scanSetLens, atTxoBuffer, hbuffer, hown, Ne.symm hown, lastSize]
    · simp [scanSetLens, atTxoBuffer, hbuffer, ih]

/-- The batch of later operations does not matter if there is one before. -/
theorem own_or {first : Option UInt32} (h : first = none → batches w tx = [])
    (more : Option UInt32) :
    ownLens w (first.or more) tx = ownLens w first tx ∧
      ownWrites w (first.or more) tx = ownWrites w first tx := by
  cases first with
  | some b => exact ⟨rfl, rfl⟩
  | none =>
    obtain ⟨hlens, hwrites⟩ : setLens w tx = [] ∧ txoEntries w tx = [] := by
      simpa [batches] using h rfl
    simp [ownLens, ownWrites, hlens, hwrites]

theorem scanBuffers_eq (hfound : s.foundBlockUpdate = true) :
    scanBuffers w.mintBuffer w.txoBuffer s tx =
      extended w (s.txoBatchId.or (batches w tx).head?) s [tx] := by
  have hlens : ownLens w (s.txoBatchId.or (batches w tx).head?) tx =
      ownLens w (s.txoBatchId.or ((setLens w tx).head?.map Prod.fst)) tx := by
    cases hnone : setLens w tx <;> simp [ownLens, batches, hnone]
  have hbatch : s.txoBatchId.or (batches w tx).head? =
      (s.txoBatchId.or ((setLens w tx).head?.map Prod.fst)).or
        ((txoEntries w tx).head?.map Prod.fst) := by
    simp [batches, Option.or_assoc]
  dsimp only [scanBuffers]
  rw [scanReinits_found hfound, foldl_scanInsert_eq, scanSetLens_eq (by exact hfound),
    foldl_scanWrite_eq, extended, List.flatMap_singleton, List.flatMap_singleton,
    List.flatMap_singleton, hlens, hbatch]
  rfl

theorem foldl_scanBuffers (hfound : s.foundBlockUpdate = true) :
    txs.foldl (scanBuffers w.mintBuffer w.txoBuffer) s =
      extended w (s.txoBatchId.or (txs.flatMap (batches w)).head?) s txs := by
  induction txs generalizing s with
  | nil => simp [extended, insertAll, lastSize]
  | cons tx txs ih =>
    rw [List.foldl_cons, scanBuffers_eq hfound, ih (by exact hfound), List.flatMap_cons,
      List.head?_append, ← Option.or_assoc]
    have hfirst : s.txoBatchId.or (batches w tx).head? = none → batches w tx = [] := by simp
    have hown := own_or hfirst (txs.flatMap (batches w)).head?
    simp [extended, hown, insertAll_append, lastSize, List.foldl_append]

theorem scanTransactions_found (hfound : s.foundBlockUpdate = true) :
    scanTransactions w.mintBuffer w.txoBuffer s txs =
      (txs.takeWhile fun tx => !tx.isBlockUpdate).foldl
        (scanBuffers w.mintBuffer w.txoBuffer) s := by
  induction txs generalizing s with
  | nil => rfl
  | cons tx txs ih =>
    rw [scanTransactions, hfound, Bool.true_or]
    cases hupdate : tx.isBlockUpdate with
    | true => simp [hupdate]
    | false =>
      have hstate : { s with foundBlockUpdate := true } = s := by rw [← hfound]
      have hnext : (scanBuffers w.mintBuffer w.txoBuffer s tx).foundBlockUpdate = true := by
        rw [scanBuffers_eq hfound]
        exact hfound
      rw [if_neg (by simp), hstate, ih hnext, List.takeWhile_cons_of_pos (by simp [hupdate])]
      rfl

section Batch

variable {current : List ParsedOperatorTx} {batch size : UInt32}

theorem own_all (hlens : ∀ e ∈ txs.flatMap (setLens w), e.1 = batch)
    (hwrites : ∀ e ∈ txs.flatMap (txoEntries w), e.1 = batch) :
    txs.flatMap (ownLens w (some batch)) = txs.flatMap (setLens w) ∧
      txs.flatMap (ownWrites w (some batch)) = txs.flatMap (txoEntries w) := by
  constructor
  · refine List.flatMap_congr fun tx htx => List.takeWhile_eq_self_iff.mpr fun e he => ?_
    simp [hlens e (List.mem_flatMap_of_mem htx he)]
  · refine List.flatMap_congr fun tx htx => List.filter_eq_self.mpr fun e he => ?_
    simp [hwrites e (List.mem_flatMap_of_mem htx he)]

theorem own_other (hlens : ∀ e ∈ txs.flatMap (setLens w), e.1 ≠ batch)
    (hwrites : ∀ e ∈ txs.flatMap (txoEntries w), e.1 ≠ batch) :
    txs.flatMap (ownLens w (some batch)) = [] ∧ txs.flatMap (ownWrites w (some batch)) = [] := by
  rw [List.flatMap_eq_nil_iff, List.flatMap_eq_nil_iff]
  refine ⟨fun tx htx => List.eq_nil_iff_forall_not_mem.mpr fun e he => ?_,
    fun tx htx => List.filter_eq_nil_iff.mpr fun e he => ?_⟩
  · exact hlens e (List.mem_flatMap_of_mem htx ((List.takeWhile_sublist _).subset he))
      (by simpa using List.mem_takeWhile_imp he)
  · simp [hwrites e (List.mem_flatMap_of_mem htx he)]

theorem head_batches (hbegun : (batch, size) ∈ current.flatMap (setLens w))
    (hlens : ∀ e ∈ current.flatMap (setLens w), e.1 = batch)
    (hwrites : ∀ e ∈ current.flatMap (txoEntries w), e.1 = batch) :
    (current.flatMap (batches w)).head? = some batch := by
  have hall : ∀ b ∈ current.flatMap (batches w), b = batch := by
    intro b hb
    obtain ⟨tx, htx, hb⟩ := List.mem_flatMap.mp hb
    rcases List.mem_append.mp hb with hb | hb
    · obtain ⟨e, he, rfl⟩ := List.mem_map.mp hb
      exact hlens e (List.mem_flatMap_of_mem htx he)
    · obtain ⟨e, he, rfl⟩ := List.mem_map.mp hb
      exact hwrites e (List.mem_flatMap_of_mem htx he)
  have hsome : batch ∈ current.flatMap (batches w) := by
    obtain ⟨tx, htx, he⟩ := List.mem_flatMap.mp hbegun
    exact List.mem_flatMap_of_mem htx (List.mem_append_left _ (List.mem_map_of_mem he))
  obtain ⟨b, bs, hcons⟩ := List.exists_cons_of_ne_nil (List.ne_nil_of_mem hsome)
  rw [hcons, ← hall b (hcons ▸ List.mem_cons_self)]
  rfl

theorem lastSize_of_mem {lens : List (UInt32 × UInt32)} (hbegun : (batch, size) ∈ lens)
    (hlens : ∀ e ∈ lens, e = (batch, size)) (old : UInt32) : lastSize old lens = size := by
  rcases lens.eq_nil_or_concat with rfl | ⟨ls, l, rfl⟩
  · cases hbegun
  · rw [lastSize, List.concat_eq_append, List.foldl_append]
    exact congrArg Prod.snd (hlens l (by simp))

/-- The operations of one batch, after which only those of other batches are met. -/
theorem extended_one {abandoned : List ParsedOperatorTx}
    (hbegun : (batch, size) ∈ current.flatMap (setLens w))
    (hlens : ∀ e ∈ current.flatMap (setLens w), e = (batch, size))
    (hwrites : ∀ e ∈ current.flatMap (txoEntries w), e.1 = batch)
    (hotherLens : ∀ e ∈ abandoned.flatMap (setLens w), e.1 ≠ batch)
    (hotherWrites : ∀ e ∈ abandoned.flatMap (txoEntries w), e.1 ≠ batch) :
    extended w ((current ++ abandoned).flatMap (batches w)).head? s (current ++ abandoned) =
      { s with
        pendingMints :=
          insertAll s.pendingMints ((current ++ abandoned).flatMap (mintEntries w))
        txoWrites := insertAll s.txoWrites ((current.flatMap (txoEntries w)).map writeEntry)
        txoDataSize := size
        txoBatchId := some batch } := by
  have hbatches : ∀ e ∈ current.flatMap (setLens w), e.1 = batch :=
    fun e he => congrArg Prod.fst (hlens e he)
  have hbatch : ((current ++ abandoned).flatMap (batches w)).head? = some batch := by
    rw [List.flatMap_append, List.head?_append, head_batches hbegun hbatches hwrites,
      Option.some_or]
  obtain ⟨hownLens, hownWrites⟩ := own_all hbatches hwrites
  obtain ⟨hnoLens, hnoWrites⟩ := own_other hotherLens hotherWrites
  rw [hbatch, extended, List.flatMap_append (f := ownWrites w (some batch)),
    List.flatMap_append (f := ownLens w (some batch)), hownLens, hownWrites, hnoLens, hnoWrites,
    List.append_nil, List.append_nil, lastSize_of_mem hbegun hlens]

end Batch

end Scanning

section Chunks

variable {size : ℕ}

theorem chunksExact_slice {d : Bytes} {off n : ℕ} (h : off + n ≤ d.length) :
    chunksExact size (slice d off n) =
      (List.range (n / size)).map fun i => slice d (off + i * size) size := by
  rw [chunksExact, slice_length h]
  apply List.map_congr_left
  intro i hi
  apply slice_slice
  have hlt := Nat.mul_le_mul_right size (List.mem_range.mp hi)
  have hdiv := Nat.div_mul_le_self n size
  rw [Nat.succ_mul] at hlt
  omega

theorem chunksExact_append {k : ℕ} {a b : Bytes} (hsize : 0 < size) (ha : a.length = size * k) :
    chunksExact size (a ++ b) = chunksExact size a ++ chunksExact size b := by
  have hk : a.length / size = k := by rw [ha, Nat.mul_div_cancel_left k hsize]
  have hlen : (a ++ b).length / size = k + b.length / size := by
    rw [List.length_append, ha, Nat.mul_add_div hsize]
  rw [chunksExact, hlen, List.range_add, List.map_append, List.map_map, chunksExact, hk,
    chunksExact]
  congr 1
  · apply List.map_congr_left
    intro i hi
    have hle := Nat.mul_le_mul_right size (List.mem_range.mp hi)
    rw [Nat.succ_mul, Nat.mul_comm k] at hle
    rw [slice, slice, List.drop_append_of_le_length (by omega), List.take_append_of_le_length]
    rw [List.length_drop]
    omega
  · apply List.map_congr_left
    intro i _
    rw [Function.comp_apply, slice, slice, Nat.add_mul, Nat.mul_comm k, ← ha, List.drop_append,
      Nat.add_sub_cancel_left, List.drop_eq_nil_of_le (Nat.le_add_right _ _), List.nil_append]

theorem mintsOf_flatMap {ι : Type} {is : List ι} {f : ι → Bytes} {k : ι → ℕ}
    (h : ∀ i ∈ is, (f i).length = 40 * k i) :
    mintsOf (is.flatMap f) = is.flatMap fun i => mintsOf (f i) := by
  induction is with
  | nil => exact mintsOf_short (Nat.zero_lt_succ _)
  | cons i is ih =>
    have hmints : mintsOf (f i ++ is.flatMap f) = mintsOf (f i) ++ mintsOf (is.flatMap f) := by
      rw [mintsOf, chunksExact_append (by decide) (h i List.mem_cons_self), List.map_append]
      rfl
    rw [List.flatMap_cons, hmints, ih fun j hj => h j (List.mem_cons_of_mem _ hj),
      List.flatMap_cons]

end Chunks

section Mints

variable {c : Crypto} {d : Bytes} {ops : List BufferOp}

def mintsHeld (d : Bytes) : List PendingMint :=
  (List.range (countOf d)).map fun i =>
    PendingMint.pod.decode (slice d (72 + 32 * groupsOf d + i * 40) 40)

theorem mintsHeld_eq (h : 72 + 32 * groupsOf d + 40 * countOf d ≤ d.length) :
    mintsHeld d = mintsOf (slice d (72 + 32 * groupsOf d) (40 * countOf d)) := by
  rw [mintsOf, chunksExact_slice h, Nat.mul_div_cancel_left _ (by decide),
    List.map_map]
  rfl

theorem logOf_apply (hadds : ∀ op ∈ ops, Adds op) (g : ℕ) :
    logOf ops g = (insertsOf ops).filterMap fun e => if e.1.toNat = g then some e.2 else none := by
  induction ops using List.reverseRecOn with
  | nil => rfl
  | append_singleton ops op ih =>
    have hbefore := ih fun o ho => hadds o (List.mem_append_left _ ho)
    rw [logOf_snoc, insertsOf_append, List.filterMap_append, ← hbefore]
    cases op with
    | resize => simp [Log.after, insertsOf]
    | insert g' x =>
      by_cases hg : g'.toNat = g
      · subst hg
        simp [Log.after, insertsOf]
      · simp [Log.after, insertsOf, hg, Function.update_of_ne (Ne.symm hg)]
    | _ => exact (hadds _ (List.mem_append_right _ List.mem_cons_self)).elim

/-- The groups of a complete upload: each was inserted once. -/
structure Groups (d : Bytes) (es : List (UInt16 × Bytes)) (x : ℕ → Bytes) : Prop where
  few : groupsOf d ≤ 65536
  mints : ∀ g < groupsOf d, mintsOf (x g) ≠ []
  mem : ∀ e, e ∈ es ↔ e.1.toNat < groupsOf d ∧ e.2 = x e.1.toNat
  held : mintsHeld d = (List.range (groupsOf d)).flatMap fun g => mintsOf (x g)

variable {x : Bytes}

theorem mintsOf_ne_nil {k : ℕ} (hlen : x.length = 40 * k) (hk : 0 < k) :
    mintsOf x ≠ [] := by
  intro h
  have hlength := congrArg List.length h
  rw [mintsOf, chunksExact, hlen, Nat.mul_div_cancel_left k (by decide)] at hlength
  simp at hlength
  omega

theorem mem_logOf (hadds : ∀ op ∈ ops, Adds op) {g : ℕ} :
    x ∈ logOf ops g ↔ ∃ e ∈ insertsOf ops, e.1.toNat = g ∧ e.2 = x := by
  rw [logOf_apply hadds, List.mem_filterMap]
  simp

theorem Filled.groups (hf : Filled c d ops) (hadds : ∀ op ∈ ops, Adds op)
    (hfull : initializedOf d = countOf d) :
    Groups d (insertsOf ops) fun g => (logOf ops g).flatten := by
  obtain ⟨hgroups, hfits, honce, htiled⟩ := hf.recorded.complete hf.long hfull
  have hlog : ∀ g < groupsOf d, logOf ops g = [(logOf ops g).flatten] ∧
      (logOf ops g).flatten.length = 40 * PendingMintsTracker.groupSize (countOf d) g := by
    intro g hg
    obtain ⟨x, hx, hlen, -⟩ := honce g hg
    rw [hx, List.flatten_singleton]
    exact ⟨rfl, hlen⟩
  have hcount : countOf d < 65536 := UInt16.toNat_lt _
  refine ⟨?_, ?_, ?_, ?_⟩
  · unfold PendingMintsTracker.groupCount at hgroups
    omega
  · intro g hg
    exact mintsOf_ne_nil (hlog g hg).2 (PendingMintsTracker.groupSize_pos (hgroups ▸ hg))
  · intro e
    constructor
    · intro he
      have hg := hf.inside e he
      have hmem : e.2 ∈ logOf ops e.1.toNat := (mem_logOf hadds).mpr ⟨e, he, rfl, rfl⟩
      rw [(hlog _ hg).1] at hmem
      exact ⟨hg, List.mem_singleton.mp hmem⟩
    · rintro ⟨hg, hx⟩
      have hmem : e.2 ∈ logOf ops e.1.toNat := by
        rw [(hlog _ hg).1]
        exact List.mem_singleton.mpr hx
      obtain ⟨e', he', hkey, hvalue⟩ := (mem_logOf hadds).mp hmem
      have heq : e' = e := Prod.ext (UInt16.toNat_inj.mp hkey) hvalue
      exact heq ▸ he'
  · rw [mintsHeld_eq hfits, htiled]
    exact mintsOf_flatMap fun g hg => (hlog g (List.mem_range.mp hg)).2

section Assembled

variable {es : List (UInt16 × Bytes)} {x : ℕ → Bytes}

theorem Groups.toNat_ofNat (h : Groups d es x) {g : ℕ} (hg : g < groupsOf d) :
    (UInt16.ofNat g).toNat = g :=
  UInt16.toNat_ofNat_of_lt' (Nat.lt_of_lt_of_le hg h.few)

theorem Groups.keys_perm (h : Groups d es x) {ks : List UInt16} (hnodup : ks.Nodup)
    (hks : ∀ k, k ∈ ks ↔ k ∈ es.map Prod.fst) :
    ks.Perm ((List.range (groupsOf d)).map UInt16.ofNat) := by
  have hrange : ((List.range (groupsOf d)).map UInt16.ofNat).Nodup := by
    refine List.nodup_range.map_on ?_
    intro a ha b hb heq
    rw [← h.toNat_ofNat (List.mem_range.mp ha), heq, h.toNat_ofNat (List.mem_range.mp hb)]
  rw [List.perm_ext_iff_of_nodup hnodup hrange]
  intro k
  rw [hks]
  constructor
  · intro hk
    obtain ⟨e, he, rfl⟩ := List.mem_map.mp hk
    exact List.mem_map.mpr ⟨e.1.toNat, List.mem_range.mpr ((h.mem e).mp he).1,
      UInt16.ofNat_toNat⟩
  · intro hk
    obtain ⟨g, hg, rfl⟩ := List.mem_map.mp hk
    have hlt := List.mem_range.mp hg
    refine List.mem_map.mpr ⟨(UInt16.ofNat g, x g), (h.mem _).mpr ?_, rfl⟩
    rw [h.toNat_ofNat hlt]
    exact ⟨hlt, rfl⟩

theorem Groups.sorted (h : Groups d es x) {ks : List UInt16} (hnodup : ks.Nodup)
    (hks : ∀ k, k ∈ ks ↔ k ∈ es.map Prod.fst) :
    (ks.mergeSort fun a b => decide (a ≤ b)) = (List.range (groupsOf d)).map UInt16.ofNat := by
  have hantisymm (a b : UInt16) (_ : a ∈ ks.mergeSort fun a b => decide (a ≤ b))
      (_ : b ∈ (List.range (groupsOf d)).map UInt16.ofNat) (hab : a ≤ b) (hba : b ≤ a) : a = b :=
    UInt16.le_antisymm hab hba
  have htrans (a b c : UInt16) (hab : decide (a ≤ b) = true) (hbc : decide (b ≤ c) = true) :
      decide (a ≤ c) = true :=
    decide_eq_true (UInt16.le_trans (of_decide_eq_true hab) (of_decide_eq_true hbc))
  have htotal (a b : UInt16) : (decide (a ≤ b) || decide (b ≤ a)) = true := by
    simpa using UInt16.le_total a b
  refine List.Perm.eq_of_pairwise hantisymm ?_ ?_ ?_
  · simpa using List.pairwise_mergeSort htrans htotal ks
  · rw [List.pairwise_map]
    refine List.pairwise_lt_range.imp_of_mem ?_
    intro a b ha hb hab
    rw [UInt16.le_iff_toNat_le, h.toNat_ofNat (List.mem_range.mp ha),
      h.toNat_ofNat (List.mem_range.mp hb)]
    exact Nat.le_of_lt hab
  · exact (List.mergeSort_perm _ _).trans (h.keys_perm hnodup hks)

theorem Groups.assembled (h : Groups d es x)
    {ms : List (Sigma fun _ : UInt16 => List PendingMint)}
    (hms : ∀ e, e ∈ ms ↔ e ∈ es.filterMap mintEntry) :
    assembleMints (insertAll ∅ ms) = mintsHeld d := by
  have hentries : es.filterMap mintEntry = es.map fun e => ⟨e.1, mintsOf e.2⟩ := by
    rw [← List.filterMap_eq_map]
    apply List.filterMap_congr
    intro e he
    obtain ⟨hg, hx⟩ := (h.mem e).mp he
    exact if_neg (hx ▸ h.mints _ hg)
  rw [hentries] at hms
  have hfunctional : Functional ms := by
    intro e he e' he' hkey
    obtain ⟨y, hy, rfl⟩ := List.mem_map.mp ((hms e).mp he)
    obtain ⟨z, hz, rfl⟩ := List.mem_map.mp ((hms e').mp he')
    have hsame : y = z := Prod.ext hkey (((h.mem y).mp hy).2.trans
      ((congrArg (fun g : UInt16 => x g.toNat) hkey).trans ((h.mem z).mp hz).2.symm))
    rw [hsame]
  have hkeys (k : UInt16) : k ∈ (insertAll ∅ ms).keys ↔ k ∈ es.map Prod.fst := by
    simp only [AList.keys, List.keys, List.mem_map, mem_insertAll_empty hfunctional, hms]
    simp
  have hsorted := h.sorted (insertAll ∅ ms).keys_nodup hkeys
  rw [assembleMints, hsorted, List.flatMap_map, h.held]
  apply List.flatMap_congr
  intro g hg
  have hlt := List.mem_range.mp hg
  have hmem : (⟨UInt16.ofNat g, mintsOf (x g)⟩ : Sigma fun _ : UInt16 => List PendingMint) ∈
      (insertAll ∅ ms).entries := by
    rw [mem_insertAll_empty hfunctional, hms]
    refine List.mem_map.mpr ⟨(UInt16.ofNat g, x g), (h.mem _).mpr ?_, rfl⟩
    rw [h.toNat_ofNat hlt]
    exact ⟨hlt, rfl⟩
  rw [AList.mem_lookup_iff.mpr hmem]
  rfl

end Assembled

end Mints

section Txos

variable {d raw raw' : Bytes} {ops : List TxoOp} {n i : ℕ} {e : Write} {ws ws' : List Write}

def txosHeld (d : Bytes) : List UInt32 :=
  (List.range (dataSizeOf d / 4)).map fun i =>
    Pod.u32.decode (slice d (TxoBuffer.HEADER_SIZE + i * 4) 4)

theorem txosHeld_eq (h : TxoBuffer.HEADER_SIZE + dataSizeOf d ≤ d.length) :
    txosHeld d = (chunksExact 4 (slice d TxoBuffer.HEADER_SIZE (dataSizeOf d))).map
      Pod.u32.decode := by
  rw [chunksExact_slice h, List.map_map]
  rfl

theorem copyWrite_inside (h : e.1.toNat + e.2.length ≤ raw.length) :
    copyWrite raw e = some (splice raw e.1.toNat e.2) := by
  simp only [copyWrite, Nat.min_eq_left h, if_neg (Nat.not_lt.mpr (Nat.le_add_right _ _)),
    Nat.add_sub_cancel_left, List.take_length]
  split
  · rfl
  · next hlen =>
    have hnil : e.2 = [] := List.length_eq_zero_iff.mp (Nat.eq_zero_of_not_pos hlen)
    rw [hnil, splice]
    simp

theorem copyWrite_some (h : copyWrite raw e = some raw') :
    e.1.toNat ≤ raw.length ∧ raw'.length = raw.length := by
  simp only [copyWrite] at h
  split at h
  · cases h
  · split at h
    · cases h
      refine ⟨by omega, splice_length ?_⟩
      rw [List.length_take]
      omega
    · cases h
      exact ⟨by omega, rfl⟩

theorem copyWrite_of_le (h : e.1.toNat ≤ raw.length) : ∃ raw', copyWrite raw e = some raw' := by
  simp only [copyWrite]
  rw [if_neg (by omega)]
  split
  · exact ⟨_, rfl⟩
  · exact ⟨_, rfl⟩

/-- The loop over the writes panics at the first that starts behind the end. -/
theorem foldlM_copyWrite :
    (ws.foldlM copyWrite raw).isSome ↔ ∀ e ∈ ws, e.1.toNat ≤ raw.length := by
  induction ws generalizing raw with
  | nil => simp
  | cons e ws ih =>
    rw [List.forall_mem_cons, List.foldlM_cons]
    cases hcopy : copyWrite raw e with
    | none =>
      refine ⟨fun h => (by cases h), fun h => ?_⟩
      obtain ⟨raw₁, hsome⟩ := copyWrite_of_le h.1
      rw [hcopy] at hsome
      cases hsome
    | some raw₁ =>
      obtain ⟨hle, hlen⟩ := copyWrite_some hcopy
      change (ws.foldlM copyWrite raw₁).isSome ↔ _
      rw [ih, hlen, and_iff_right hle]

theorem copyWrite_getElem? (h : copyWrite raw e = some raw') (hi : i < raw.length) :
    raw'[i]? = (byteAt e i).or raw[i]? := by
  simp only [copyWrite] at h
  split at h
  · cases h
  · split at h
    · cases h
      have hlen : (e.2.take (min (e.1.toNat + e.2.length) raw.length - e.1.toNat)).length =
          min (e.1.toNat + e.2.length) raw.length - e.1.toNat := by
        rw [List.length_take]
        omega
      rw [splice_getElem? (by omega), hlen, byteAt]
      by_cases hstart : e.1.toNat ≤ i
      · rw [if_pos hstart]
        by_cases hend : i - e.1.toNat < e.2.length
        · rw [if_pos (by omega), List.getElem?_take_of_lt (by omega),
            List.getElem?_eq_getElem hend, Option.some_or]
        · have hnone : e.2[i - e.1.toNat]? = none := List.getElem?_eq_none (by omega)
          rw [if_neg (by omega), hnone, Option.none_or]
      · rw [if_neg (by omega), if_neg hstart, Option.none_or]
    · cases h
      have hnone : byteAt e i = none := by
        rw [byteAt]
        split
        · exact List.getElem?_eq_none (by omega)
        · rfl
      rw [hnone, Option.none_or]

/-- The byte at `i` after the writes, if it was `b` before. -/
def byteAfter (ws : List Write) (i : ℕ) (b : Option UInt8) : Option UInt8 :=
  ws.foldl (fun b e => (byteAt e i).or b) b

theorem foldlM_getElem? (h : ws.foldlM copyWrite raw = some raw') :
    raw'.length = raw.length ∧ ∀ i < raw.length, raw'[i]? = byteAfter ws i raw[i]? := by
  induction ws generalizing raw with
  | nil =>
    cases h
    exact ⟨rfl, fun _ _ => rfl⟩
  | cons e ws ih =>
    rw [List.foldlM_cons] at h
    obtain ⟨raw₁, hfirst, hrest⟩ := Option.bind_eq_some_iff.mp h
    obtain ⟨-, hlen⟩ := copyWrite_some hfirst
    obtain ⟨hlen', hbytes⟩ := ih hrest
    refine ⟨hlen'.trans hlen, fun i hi => ?_⟩
    rw [hbytes i (hlen ▸ hi), copyWrite_getElem? hfirst hi]
    rfl

theorem byteAfter_perm (hperm : ws.Perm ws')
    (hagree : ∀ e ∈ ws, ∀ e' ∈ ws, ∀ a b, byteAt e i = some a → byteAt e' i = some b → a = b)
    (b : Option UInt8) : byteAfter ws i b = byteAfter ws' i b := by
  refine hperm.foldl_eq' (fun e he e' he' b => ?_) b
  cases ha : byteAt e i with
  | none => rw [Option.none_or, Option.none_or]
  | some a =>
    cases hb : byteAt e' i with
    | none => rw [Option.none_or, Option.none_or]
    | some b => rw [hagree e he e' he' a b ha hb, Option.some_or]

theorem byteAfter_last (hbyte : (byteAt e i).isSome) (b : Option UInt8) :
    byteAfter (ws ++ [e]) i b = byteAt e i := by
  rw [byteAfter, List.foldl_append]
  exact Option.or_of_isSome hbyte

theorem byteAfter_of_mem {b : UInt8} {old : Option UInt8} (he : e ∈ ws)
    (hbyte : byteAt e i = some b)
    (hagree : ∀ e ∈ ws, ∀ e' ∈ ws, ∀ a b, byteAt e i = some a → byteAt e' i = some b → a = b) :
    byteAfter ws i old = some b := by
  have hperm : (ws.erase e ++ [e]).Perm ws :=
    List.perm_append_comm.trans (List.perm_cons_erase he).symm
  rw [byteAfter_perm hperm.symm hagree, byteAfter_last (Option.isSome_of_mem hbyte), hbyte]

theorem copies_stored (hfits : Fits n ops) (hstored : Stored n ops d)
    (hcovers : ∀ i < n, ∃ e ∈ writesOf ops, e.1.toNat ≤ i ∧ i < e.1.toNat + e.2.length)
    (hws : ∀ e, e ∈ ws ↔ e ∈ writesOf ops) :
    ws.foldlM copyWrite (List.replicate n 0) = some (slice d TxoBuffer.HEADER_SIZE n) := by
  have hinside : ∀ e ∈ ws, e.1.toNat ≤ (List.replicate n (0 : UInt8)).length := by
    intro e he
    have hle := hfits.inside e ((hws e).mp he)
    rw [List.length_replicate]
    omega
  obtain ⟨raw, hfold⟩ := Option.isSome_iff_exists.mp (foldlM_copyWrite.mpr hinside)
  obtain ⟨hlen, hbytes⟩ := foldlM_getElem? hfold
  rw [List.length_replicate] at hlen hbytes
  rw [hfold]
  congr 1
  apply List.ext_getElem?
  intro i
  rw [slice_getElem?]
  split
  · next hi =>
    obtain ⟨e, he, hle, hlt⟩ := hcovers i hi
    have hwritten : byteAt e i = some e.2[i - e.1.toNat] := by
      rw [byteAt, if_pos hle]
      exact List.getElem?_eq_getElem (by omega)
    rw [hbytes i hi, byteAfter_of_mem ((hws e).mpr he) hwritten, hstored.bytes e he i _ hwritten]
    intro e₁ he₁ e₂ he₂
    exact (hfits.agree e₁ ((hws e₁).mp he₁) e₂ ((hws e₂).mp he₂)).bytes i
  · next hi => exact List.getElem?_eq_none (by omega)

end Txos

section Main

variable {env : BridgeEnv} {w : Watched} {t : ChainTransaction} {l : Ledger}
  {old window later : List ChainTransaction} {before after : List CompiledInstruction}

def parsed (t : ChainTransaction) : ParsedOperatorTx :=
  parseOperatorTx deployed t.slot t.transaction

def ofOperator (w : Watched) (t : ChainTransaction) : Bool := t.keys.contains w.operator

theorem ofOperator_iff : ofOperator w t = true ↔ w.operator ∈ t.keys := List.contains_iff_mem

def cacheOf (w : Watched) (history : List ChainTransaction) : List ParsedOperatorTx :=
  (history.filter (ofOperator w)).reverse.map parsed

theorem cacheOf_append (us vs : List ChainTransaction) :
    cacheOf w (us ++ vs) = cacheOf w vs ++ cacheOf w us := by
  rw [cacheOf, List.filter_append, List.reverse_append, List.map_append]
  rfl

/-- What the client takes for the operations on the mint buffer: the operator's top-level
instructions, also those of failed transactions. -/
def seenMints (w : Watched) (us : List ChainTransaction) : List BufferOp :=
  (us.filter (ofOperator w)).flatMap fun u =>
    u.transaction.message.instructions.filterMap (mintOp w u.transaction.message.staticAccountKeys)

def seenTxos (w : Watched) (us : List ChainTransaction) : List TxoOp :=
  (us.filter (ofOperator w)).flatMap fun u =>
    u.transaction.message.instructions.filterMap (txoOp w u.transaction.message.staticAccountKeys)

theorem mem_cacheOf {γ : Type} {g : ParsedOperatorTx → List γ} {f : ChainTransaction → List γ}
    (h : ∀ u, g (parsed u) = f u) (us : List ChainTransaction) {e : γ} :
    e ∈ (cacheOf w us).flatMap g ↔ e ∈ (us.filter (ofOperator w)).flatMap f := by
  simp only [cacheOf, List.flatMap_map, List.mem_flatMap, List.mem_reverse, h]

theorem mem_seenMints {us : List ChainTransaction}
    {e : Sigma fun _ : UInt16 => List PendingMint} :
    e ∈ (cacheOf w us).flatMap (mintEntries w) ↔
      e ∈ (insertsOf (seenMints w us)).filterMap mintEntry := by
  rw [mem_cacheOf fun u => (parses_fold _ _).mints, insertsOf, seenMints, List.filterMap_flatMap,
    List.filterMap_flatMap]
  rfl

theorem mem_seenLens {us : List ChainTransaction} {e : UInt32 × UInt32} :
    e ∈ (cacheOf w us).flatMap (setLens w) ↔ e ∈ lensOf (seenTxos w us) := by
  rw [mem_cacheOf fun u => (parses_fold _ _).lens, lensOf, seenTxos, List.filterMap_flatMap]
  rfl

theorem mem_seenWrites {us : List ChainTransaction} {e : UInt32 × UInt32 × Bytes} :
    e ∈ (cacheOf w us).flatMap (txoEntries w) ↔ e ∈ batchWrites (seenTxos w us) := by
  rw [mem_cacheOf fun u => (parses_fold _ _).writes, batchWrites, seenTxos, List.filterMap_flatMap]
  rfl

/-- The client sees the inserts of the last upload, after the last `reinit`, and no others. Or it
sees none and the buffer is empty. -/
def UploadedMints (seen ops : List BufferOp) (d : Bytes) : Prop :=
  (∃ first n last, ops = first ++ .reinit n :: last ∧ (∀ op ∈ last, Adds op) ∧
    ∀ e, e ∈ (insertsOf seen).filterMap mintEntry ↔ e ∈ (insertsOf last).filterMap mintEntry) ∨
  (insertsOf seen).filterMap mintEntry = [] ∧ countOf d = 0

/-- The client sees one batch, of one size, and before it only other batches; its writes are those
of the last upload, which fills the buffer. -/
structure OneBatch (batch size : UInt32) (abandoned seen last : List TxoOp) : Prop where
  begun : (batch, size) ∈ lensOf seen
  lens : ∀ e ∈ lensOf seen, e = (batch, size)
  writes : ∀ e ∈ batchWrites seen, e.1 = batch
  otherLens : ∀ e ∈ lensOf abandoned, e.1 ≠ batch
  otherWrites : ∀ e ∈ batchWrites abandoned, e.1 ≠ batch
  same : ∀ e, e ∈ writesOf seen ↔ e ∈ writesOf last
  sized : ∃ b n, .setLen b n ∈ last
  fits : Fits size.toNat last
  covers : ∀ i < size.toNat, ∃ e ∈ writesOf last, e.1.toNat ≤ i ∧ i < e.1.toNat + e.2.length

def uploadedMints (w : Watched) (window : List ChainTransaction) (t : ChainTransaction)
    (before : List CompiledInstruction) : List BufferOp :=
  window.flatMap (mintOps w) ++ before.filterMap (mintOp w t.keys)

def uploadedTxos (w : Watched) (window : List ChainTransaction) (t : ChainTransaction)
    (before : List CompiledInstruction) : List TxoOp :=
  window.flatMap (txoOps w) ++ before.filterMap (txoOp w t.keys)

/-- Since the block update before, if there is one, the client sees the upload of each buffer that
the update found there, and what else it sees does not count. -/
structure Uploaded (w : Watched) (old window later : List ChainTransaction)
    (t : ChainTransaction) (before : List CompiledInstruction) (l : Ledger) : Prop where
  start : ∀ u ∈ old.getLast?, w.operator ∈ u.keys ∧ (parsed u).isBlockUpdate = true
  between : ∀ u ∈ window, w.operator ∈ u.keys → (parsed u).isBlockUpdate = false
  update : (parsed t).isBlockUpdate = true
  later : ∀ u ∈ later, w.operator ∈ u.keys → t.slot < u.slot
  mints : UploadedMints (seenMints w (window ++ [t])) (uploadedMints w window t before)
    (l w.mintBuffer).data
  txos : (∃ abandoned current earlier last batch size, window = abandoned ++ current ∧
      uploadedTxos w window t before = earlier ++ last ∧
      OneBatch batch size (seenTxos w abandoned) (seenTxos w (current ++ [t])) last) ∨
    lensOf (seenTxos w (window ++ [t])) = [] ∧ dataSizeOf (l w.txoBuffer).data = 0

theorem parsed_slot (t : ChainTransaction) : (parsed t).slot = t.slot := by
  rw [parsed, parseOperatorTx, parseInstructions_eq]
  exact congrArg ParsedOperatorTx.slot (@grouped_update ⟨0, false, [], [], [], []⟩ _ _ _)

theorem cacheOf_update (hop : w.operator ∈ t.keys) (us : List ChainTransaction) :
    cacheOf w (us ++ [t]) = parsed t :: cacheOf w us := by
  rw [cacheOf_append]
  change ([t].filter (ofOperator w)).reverse.map parsed ++ _ = _
  rw [List.filter_cons_of_pos (ofOperator_iff.mpr hop)]
  rfl

theorem relevant_eq (hordered : ∀ u ∈ old ++ window, u.slot ≤ t.slot) (hop : w.operator ∈ t.keys)
    (hlater : ∀ u ∈ later, w.operator ∈ u.keys → t.slot < u.slot) :
    ((cacheOf w (old ++ window ++ t :: later)).filter fun tx => decide (tx.slot ≤ t.slot)) =
      parsed t :: (cacheOf w window ++ cacheOf w old) := by
  have hkept : (cacheOf w ((old ++ window) ++ [t])).filter (fun tx => decide (tx.slot ≤ t.slot)) =
      cacheOf w ((old ++ window) ++ [t]) := by
    rw [List.filter_eq_self]
    intro tx htx
    obtain ⟨u, hu, rfl⟩ := List.mem_map.mp htx
    rw [parsed_slot]
    rcases List.mem_append.mp (List.mem_of_mem_filter (List.mem_reverse.mp hu)) with hu | hu
    · exact decide_eq_true (hordered u hu)
    · rw [List.mem_singleton.mp hu]
      exact decide_eq_true UInt64.le_rfl
  have hdropped : (cacheOf w later).filter (fun tx => decide (tx.slot ≤ t.slot)) = [] := by
    rw [List.filter_eq_nil_iff]
    intro tx htx
    obtain ⟨u, hu, rfl⟩ := List.mem_map.mp htx
    obtain ⟨hmem, hop⟩ := List.mem_filter.mp (List.mem_reverse.mp hu)
    rw [parsed_slot, decide_eq_true_iff]
    exact UInt64.not_le.mpr (hlater u hmem (ofOperator_iff.mp hop))
  rw [List.append_cons, cacheOf_append, List.filter_append, hdropped, List.nil_append, hkept,
    cacheOf_update hop, cacheOf_append]

variable {batch size : UInt32} {ms : List (Sigma fun _ : UInt16 => List PendingMint)} {d : Bytes}

/-- The client reads the transactions back to the block update before. -/
theorem scanned (uploaded : Uploaded w old window later t before l)
    (hordered : ∀ u ∈ old ++ window, u.slot ≤ t.slot) (hop : w.operator ∈ t.keys) :
    scanTransactions w.mintBuffer w.txoBuffer .start
        ((cacheOf w (old ++ window ++ t :: later)).filter fun tx => decide (tx.slot ≤ t.slot)) =
      extended w ((cacheOf w (window ++ [t])).flatMap (batches w)).head?
        { Scan.start with foundBlockUpdate := true } (cacheOf w (window ++ [t])) := by
  have hbetween : ∀ tx ∈ cacheOf w window, (!tx.isBlockUpdate) = true := by
    intro tx htx
    obtain ⟨u, hu, rfl⟩ := List.mem_map.mp htx
    obtain ⟨hmem, hof⟩ := List.mem_filter.mp (List.mem_reverse.mp hu)
    rw [uploaded.between u hmem (ofOperator_iff.mp hof)]
    rfl
  have hold : (cacheOf w old).takeWhile (fun tx => !tx.isBlockUpdate) = [] := by
    have hlast := uploaded.start
    rcases old.eq_nil_or_concat with rfl | ⟨os, u, rfl⟩
    · rfl
    · obtain ⟨huop, hu⟩ := hlast u (by simp)
      rw [List.concat_eq_append, cacheOf_update huop, List.takeWhile_cons_of_neg (by simp [hu])]
  rw [relevant_eq hordered hop uploaded.later, scanTransactions, if_neg (by simp [Scan.start]),
    uploaded.update, Bool.or_true, scanTransactions_found, List.takeWhile_append_of_pos hbetween,
    hold, List.append_nil, ← List.foldl_cons, foldl_scanBuffers rfl, cacheOf_update hop]
  · rfl
  · rw [scanBuffers_eq rfl]
    rfl

theorem mints_assembled {seen ops earlier : List BufferOp} {a a' : Account}
    (hash : ∀ e ∈ insertsOf ops, env.crypto.sha256 e.2 ≠ zeroBytes)
    (run : Run (MintStep env) a (earlier ++ ops) a')
    (hfull : initializedOf a'.data = countOf a'.data) (huploaded : UploadedMints seen ops a'.data)
    (hms : ∀ e, e ∈ ms ↔ e ∈ (insertsOf seen).filterMap mintEntry) :
    assembleMints (insertAll ∅ ms) = mintsHeld a'.data := by
  rcases huploaded with ⟨first, n, last, rfl, hadds, hseen⟩ | ⟨hnone, hcount⟩
  · rw [← List.append_assoc] at run
    have hlast : ∀ e ∈ insertsOf last, env.crypto.sha256 e.2 ≠ zeroBytes := by
      intro e he
      apply hash
      rw [insertsOf_append]
      exact List.mem_append_right _ he
    exact (Filled.groups (run_filled run hadds hlast) hadds hfull).assembled
      fun e => (hms e).trans (hseen e)
  · have hnil : ms = [] := by
      rw [List.eq_nil_iff_forall_not_mem]
      intro e he
      rw [hms, hnone] at he
      cases he
    rw [hnil, mintsHeld, hcount, List.range_zero, List.map_nil, assembleMints]
    simp [insertAll]

theorem writesOf_eq (ops : List TxoOp) : writesOf ops = (batchWrites ops).map writeEntry := by
  rw [batchWrites, List.map_filterMap, writesOf]
  apply List.filterMap_congr
  intro op _
  cases op <;> rfl

theorem txos_assembled {order : List Write → List Write} (permutes : ∀ m, (order m).Perm m)
    {abandoned seen earlier last : List TxoOp} {d' : Bytes} {ws : List (UInt32 × UInt32 × Bytes)}
    (run : Run TxoStep d (earlier ++ last) d') (hws : ∀ e, e ∈ ws ↔ e ∈ batchWrites seen)
    (hone : OneBatch batch size abandoned seen last) :
    assembleTxoIndices order (insertAll ∅ (ws.map writeEntry)) size = some (txosHeld d') := by
  obtain ⟨_, -, hrun⟩ := run.split
  have hstored := run_stored hrun hone.fits
  obtain ⟨hsize, hlong⟩ := hstored.sized hone.sized
  have hwrites (e : Write) : e ∈ ws.map writeEntry ↔ e ∈ writesOf last := by
    rw [← hone.same, writesOf_eq, List.mem_map, List.mem_map]
    simp only [hws]
  have hentries (e : Write) :
      e ∈ order (insertAll ∅ (ws.map writeEntry)).entries ↔ e ∈ writesOf last := by
    rw [(permutes _).mem_iff, mem_insertAll_empty, hwrites]
    intro e he e' he'
    exact (hone.fits.agree e ((hwrites e).mp he) e' ((hwrites e').mp he')).offset
  rw [assembleTxoIndices]
  by_cases hzero : size = 0
  · have hn : dataSizeOf d' = 0 := by
      rw [hsize, hzero]
      rfl
    rw [if_pos (Or.inr hzero), txosHeld, hn]
    rfl
  · have hpos : 0 < size.toNat := Nat.pos_of_ne_zero fun h => hzero (UInt32.toNat_inj.mp h)
    obtain ⟨e, he, -⟩ := hone.covers 0 hpos
    have hne : (insertAll ∅ (ws.map writeEntry)).entries ≠ [] :=
      List.ne_nil_of_mem ((permutes _).mem_iff.mp ((hentries e).mpr he))
    rw [if_neg (not_or.mpr ⟨hne, hzero⟩), copies_stored hone.fits hstored hone.covers hentries,
      txosHeld_eq (hsize ▸ hlong), hsize]
    rfl

end Main

section Samples

open LocalCluster ProgramState CommittedMints RecordedBuffer BridgeSystem StateHistory

def watched : Watched := ⟨operatorKey, mintBufferKey, txoBufferKey⟩

def sampleKeys : List Pubkey :=
  [operatorKey, mintBufferKey, txoBufferKey, bridgeState, SYSTEM_PROGRAM_ID,
    PENDING_MINT_BUFFER_BUILDER_PROGRAM_ID, TXO_BUFFER_BUILDER_PROGRAM_ID, DOGE_BRIDGE_PROGRAM_ID]

def mintIx (data : Bytes) : CompiledInstruction := ⟨5, [1, 0, 4], data⟩

def txoIx (data : Bytes) : CompiledInstruction := ⟨6, [2, 0, 4], data⟩

def updateIx : CompiledInstruction :=
  ⟨7, [3, 1, 2, 0, 0, 5, 6], InstructionCodec.instructionData (.blockUpdate firstBlock 253 254)⟩

def transactionOf (slot : UInt64) (instructions : List CompiledInstruction) : ChainTransaction where
  signature := Vector.replicate 64 0
  slot := slot
  blockTime := none
  transaction := ⟨[], ⟨1, sampleKeys, instructions, []⟩⟩
  loadedKeys := []
  err := none
  inner := instructions.map fun _ => []
  ran := fun _ => List.length_map _

theorem executed_transactionOf (slot : UInt64) (ixs : List CompiledInstruction) :
    (transactionOf slot ixs).executed = ixs := by
  change (List.zipWith List.cons ixs (ixs.map fun _ => [])).flatten = ixs
  induction ixs with
  | nil => rfl
  | cons ix ixs ih =>
    rw [List.map_cons, List.zipWith_cons_cons, List.flatten_cons, ih]
    rfl

def txoInvocation : Invocation where
  programId := TXO_BUFFER_BUILDER_PROGRAM_ID
  accounts := [⟨txoBufferKey, false, true⟩, ⟨operatorKey, true, true⟩,
    ⟨SYSTEM_PROGRAM_ID, false, false⟩]
  unixTimestamp := 0
  fundsSuffice := true

def send (l : Ledger) (ix : CompiledInstruction) : Option Ledger :=
  if ix = mintIx ix.data then upload l ix.data
  else if ix = txoIx ix.data then
    (TxoBuffer.processInstruction platform txoInvocation l ix.data).toOption
  else none

variable {ix : CompiledInstruction} {t : ChainTransaction} {l' l : Ledger} {k : Pubkey}
  {uploads : List (List CompiledInstruction)}

theorem ran_of_send (hkeys : t.keys = sampleKeys) (h : send l ix = some l') :
    Ran cluster watched t l ix l' := by
  have hne : mintBufferKey ≠ txoBufferKey := by decide
  unfold send at h
  split at h
  · next hix =>
    have hran := BufferLocks.toOption_eq_some.mp h
    have haccepts : Accepts cluster.platform cluster.crypto l ⟨uploadInvocation, ix.data⟩ l' :=
      ⟨rfl, hran⟩
    have hother : l' txoBufferKey = l txoBufferKey :=
      haccepts.elsewhere fun heq => hne (Option.some.inj heq)
    rw [hix]
    constructor
    · rw [hkeys, if_pos (by exact ⟨rfl, rfl⟩)]
      exact ⟨uploadInvocation, ⟨rfl, rfl⟩, haccepts⟩
    · rw [hkeys, if_neg]
      · exact hother
      · exact fun hcalls => absurd (Option.some.inj hcalls.1) (by decide)
  split at h
  · next hix =>
    have hran := BufferLocks.toOption_eq_some.mp h
    obtain ⟨contract, rest, op, haccounts, -, hoperates⟩ := processInstruction_operates hran
    cases haccounts
    rw [hix]
    constructor
    · rw [hkeys, if_neg]
      · exact hoperates.elsewhere _ hne
      · exact fun hcalls => absurd (Option.some.inj hcalls.1) (by decide)
    · rw [hkeys, if_pos (by exact ⟨rfl, rfl⟩)]
      exact ⟨txoInvocation, ⟨rfl, rfl⟩, hran⟩
  · cases h

theorem send_elsewhere (h : send l ix = some l') (hmints : k ≠ mintBufferKey)
    (htxos : k ≠ txoBufferKey) :
    l' k = l k := by
  unfold send at h
  split at h
  · have haccepts : Accepts cluster.platform cluster.crypto l ⟨uploadInvocation, ix.data⟩ l' :=
      ⟨rfl, BufferLocks.toOption_eq_some.mp h⟩
    exact haccepts.elsewhere fun heq => hmints (Option.some.inj heq).symm
  split at h
  · obtain ⟨contract, rest, op, haccounts, -, hoperates⟩ :=
      processInstruction_operates (BufferLocks.toOption_eq_some.mp h)
    cases haccounts
    exact hoperates.elsewhere _ htxos
  · cases h

theorem run_of_sends {ixs : List CompiledInstruction} (hkeys : t.keys = sampleKeys)
    (h : ixs.foldlM send l = some l') :
    Run (Ran cluster watched t) l ixs l' := by
  induction ixs generalizing l with
  | nil =>
    cases h
    exact .nil _
  | cons ix ixs ih =>
    obtain ⟨l₁, hfirst, hrest⟩ := Option.bind_eq_some_iff.mp h
    exact (Run.single (ran_of_send hkeys hfirst)).append (ih hrest)

def sendAll (l : Ledger) (uploads : List (List CompiledInstruction)) : Option Ledger :=
  uploads.foldlM (fun l ixs => ixs.foldlM send l) l

theorem foldlM_keeps {σ α : Type} {f : σ → α → Option σ} {P : σ → Prop}
    (hstep : ∀ s a s', f s a = some s' → P s → P s') {as : List α} {s s' : σ}
    (h : as.foldlM f s = some s') (hs : P s) : P s' := by
  induction as generalizing s with
  | nil =>
    cases h
    exact hs
  | cons a as ih =>
    obtain ⟨s₁, hfirst, hrest⟩ := Option.bind_eq_some_iff.mp h
    exact ih hrest (hstep s a s₁ hfirst hs)

theorem sendAll_elsewhere (h : sendAll l uploads = some l') (hmints : k ≠ mintBufferKey)
    (htxos : k ≠ txoBufferKey) :
    l' k = l k := by
  have hsend (l₁ : Ledger) (ix : CompiledInstruction) (l₂ : Ledger) (h : send l₁ ix = some l₂)
      (heq : l₁ k = l k) : l₂ k = l k := (send_elsewhere h hmints htxos).trans heq
  exact foldlM_keeps (P := fun l₁ => l₁ k = l k) (fun _ _ _ => foldlM_keeps hsend) h rfl

theorem processed_of_sends (h : sendAll l uploads = some l') :
    Run (Processed cluster watched) l (uploads.map (transactionOf 7)) l' := by
  induction uploads generalizing l with
  | nil =>
    cases h
    exact .nil _
  | cons ixs uploads ih =>
    obtain ⟨l₁, hfirst, hrest⟩ := Option.bind_eq_some_iff.mp h
    have hprocessed : Processed cluster watched l (transactionOf 7 ixs) l₁ := by
      have hok : (transactionOf 7 ixs).err = none := rfl
      rw [Processed, if_pos hok, executed_transactionOf]
      exact run_of_sends (List.append_nil _) hfirst
    exact (Run.single hprocessed).append (ih hrest)

/-- The ledger of the cluster after INITIALIZE and after the operator has set up the buffers. -/
def initializedLedger : Ledger :=
  Function.update
    (bufferLedger
      (PendingMintsBufferStateHeader.pod.encode ⟨bridgeState, operatorKey, 0, 0, 0, 0, 0⟩)
      (PendingMintsTxoBufferHeader.pod.encode ⟨operatorKey, 1, 0, 0, 0, 0⟩))
    bridgeState ⟨DOGE_BRIDGE_PROGRAM_ID, BridgeState.pod.encode (genesisState operatorKey 10)⟩

def depositTxoBuffer : Bytes :=
  PendingMintsTxoBufferHeader.pod.encode ⟨operatorKey, 1, 0, 11, 1, 4⟩ ++ depositTxos

def holdsDeposit (l : Ledger) : Bool :=
  decide (l mintBufferKey = ⟨PENDING_MINT_BUFFER_BUILDER_PROGRAM_ID, openBuffer 1 depositArea⟩) &&
    decide (l txoBufferKey = ⟨TXO_BUFFER_BUILDER_PROGRAM_ID, depositTxoBuffer⟩)

theorem accepted_after (h : (sendAll initializedLedger uploads).any holdsDeposit = true) :
    ∃ l, AcceptedUpdate cluster watched (uploads.map (transactionOf 7)) (transactionOf 9 [updateIx])
        [] [] l ∧
      mintsHeld (l mintBufferKey).data = [⟨recipientKey, 990⟩] ∧
      txosHeld (l txoBufferKey).data = [0] := by
  obtain ⟨l, hsent, hl⟩ := (Option.any_eq_true _ _).mp h
  simp only [holdsDeposit, Bool.and_eq_true, decide_eq_true_eq] at hl
  obtain ⟨hmints, htxos⟩ := hl
  have hself : l = install cluster l (genesisState operatorKey 10) := by
    have hholds : l (BridgeEnv.pda cluster) =
        ⟨DOGE_BRIDGE_PROGRAM_ID, BridgeState.pod.encode (genesisState operatorKey 10)⟩ := by
      rw [cluster_pda, sendAll_elsewhere hsent (by decide) (by decide)]
      exact Function.update_self ..
    rw [install, ← hholds, Function.update_eq_self]
  obtain ⟨es, l', core, hupdated, -⟩ := firstBlock_updated_with hmints htxos (by decide)
    ⟨by decide, by decide, by decide⟩
  rw [← hself] at hupdated
  have hdecoded : unpack updateIx.data = .ok (.blockUpdate firstBlock 253 254) :=
    InstructionCodec.unpack_instructionData (.blockUpdate firstBlock 253 254)
  have haccepted :=
    AcceptedInstructions.processInstruction_ok.mpr ⟨_, hdecoded, .blockUpdate hupdated⟩
  have hordered : ∀ u ∈ uploads.map (transactionOf 7),
      u.slot ≤ (transactionOf 9 [updateIx]).slot := by
    intro u hu
    obtain ⟨ixs, -, rfl⟩ := List.mem_map.mp hu
    change (7 : UInt64) ≤ 9
    decide
  have hnames : Names (transactionOf 9 [updateIx]).keys updateIx
      (updateInvocation cluster mintBufferKey txoBufferKey operatorKey) := by
    refine ⟨rfl, ?_⟩
    rw [updateInvocation, cluster_pda]
    rfl
  refine ⟨l, .intro hordered (processed_of_sends hsent) rfl (executed_transactionOf _ _) (.nil _)
    hnames rfl hdecoded trivial haccepted rfl rfl rfl, ?_, ?_⟩
  · rw [hmints]
    decide
  · rw [htxos]
    decide

def mintIxs (record : Bytes) : List CompiledInstruction :=
  [mintIx (1 :: Pod.u16.encode 1), mintIx (3 :: (Pod.u16.encode 0 ++ record))]

def txoIxs : List CompiledInstruction :=
  [txoIx (1 :: (Pod.u32.encode 4 ++ [1] ++ Pod.u32.encode 1 ++ Pod.u32.encode 11 ++ [0])),
    txoIx (2 :: (Pod.u32.encode 1 ++ Pod.u32.encode 0 ++ depositTxos))]

def otherRecord : Bytes := strangerKey.toList ++ Pod.u64.encode 5

def reuploaded : List (List CompiledInstruction) :=
  [mintIxs otherRecord, mintIxs depositRecord, txoIxs]

def sampleHistory (uploads : List (List CompiledInstruction)) : List ChainTransaction :=
  uploads.map (transactionOf 7) ++ [transactionOf 9 [updateIx]]

def staleIxs : List CompiledInstruction :=
  [txoIx (1 :: (Pod.u32.encode 8 ++ [1] ++ Pod.u32.encode 0 ++ Pod.u32.encode 11 ++ [0])),
    txoIx (2 :: (Pod.u32.encode 0 ++ Pod.u32.encode 0 ++ List.replicate 8 5))]

/-- Both uploads are sent twice: the mints as they were, the outputs as a new batch. -/
def resent : List (List CompiledInstruction) :=
  [mintIxs depositRecord, staleIxs, mintIxs depositRecord, txoIxs]

theorem resent_mints :
    uploadedMints watched (resent.map (transactionOf 7)) (transactionOf 9 [updateIx]) [] =
      [.reinit 1, .insert 0 depositRecord, .reinit 1, .insert 0 depositRecord] := by
  decide

theorem depositTxos_fit : Fits 4 [.setLen 1 4, .write 1 0 depositTxos] := by
  refine ⟨?_, by decide, ?_⟩
  · intro b m hmem
    simp at hmem
    rw [hmem.2]
    rfl
  · intro e he e' he'
    cases List.mem_singleton.mp he
    cases List.mem_singleton.mp he'
    exact ⟨fun _ => rfl, fun i a b ha hb => Option.some.inj (ha.symm.trans hb)⟩

theorem resent_uploaded (l : Ledger) :
    Uploaded watched [] (resent.map (transactionOf 7)) [] (transactionOf 9 [updateIx]) [] l := by
  have hseen : seenMints watched (resent.map (transactionOf 7) ++ [transactionOf 9 [updateIx]]) =
      [.reinit 1, .insert 0 depositRecord, .reinit 1, .insert 0 depositRecord] := by decide
  refine ⟨?_, by decide, by decide +kernel, List.forall_mem_nil _, ?_, ?_⟩
  · intro u hu
    cases hu
  · rw [resent_mints, hseen]
    refine .inl ⟨[.reinit 1, .insert 0 depositRecord], 1, [.insert 0 depositRecord], rfl,
      by simp [Adds], fun e => ?_⟩
    have hentry : mintEntry (0, depositRecord) = some ⟨0, [⟨recipientKey, 990⟩]⟩ := by decide
    simp [insertsOf, hentry]
  · refine .inl ⟨[mintIxs depositRecord, staleIxs].map (transactionOf 7),
      [mintIxs depositRecord, txoIxs].map (transactionOf 7),
      [.setLen 0 8, .write 0 0 (List.replicate 8 5)], [.setLen 1 4, .write 1 0 depositTxos], 1, 4,
      rfl, by decide, ?_⟩
    have hcurrent : seenTxos watched ([mintIxs depositRecord, txoIxs].map (transactionOf 7) ++
        [transactionOf 9 [updateIx]]) = [.setLen 1 4, .write 1 0 depositTxos] := by decide
    have habandoned : seenTxos watched ([mintIxs depositRecord, staleIxs].map (transactionOf 7)) =
        [.setLen 0 8, .write 0 0 (List.replicate 8 5)] := by decide
    rw [hcurrent, habandoned]
    exact ⟨by decide, List.forall_mem_singleton.mpr rfl, by decide,
      List.forall_mem_singleton.mpr (by decide), by decide, fun e => Iff.rfl,
      ⟨1, 4, List.mem_cons_self⟩, depositTxos_fit, by decide⟩

end Samples

end BufferReconstruction
