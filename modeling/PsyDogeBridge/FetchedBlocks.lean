import PsyDogeBridge.ClaimHistory
import PsyDogeBridge.DecoderAgreement
import PsyDogeBridge.BufferReconstruction

/-! The block records that the history client fetches for a range of heights: it reads the whole
history of the bridge page by page, takes the first instruction of a transaction that looks like a
block update, and rebuilds the buffers from the transactions of the operator. -/
namespace FetchedBlocks

open PodLayout CheckedSteps SolanaRuntime BridgeData MintGroups BridgeProcessor ClientRpc PolledLog
  PagedScan HistorySync
open ClaimHistory (SignatureInfo signatureInfo signatureName Returns)
open OperatorHistory (Watched)
open BufferReconstruction

section Client

structure HistoryRpc where
  getSignaturesForAddress :
    Pubkey → SignatureQuery → Except ClientRpc.BridgeError (List SignatureInfo)
  getTransaction : Signature → Except ClientRpc.BridgeError EncodedConfirmedTransaction

structure SyncConfig extends HistorySyncConfig where
  bridgeStatePda : Pubkey
  signatureBatchSize : ℕ

structure FetchedUpdate where
  info : BlockUpdateInfo
  signature : Signature
  slot : UInt64
  blockTime : Option ℤ

def FetchedUpdate.toBlockRecord (self : FetchedUpdate) (pendingMints : List PendingMint)
    (txoIndices : List UInt32) : BlockRecord :=
  self.info.toBlockRecord self.signature self.slot self.blockTime pendingMints txoIndices

variable (cx : Codecs) (rpc : HistoryRpc) (config : SyncConfig) (order : List Write → List Write)
  (fromHeight toHeight : Option UInt32)

section Instructions

variable (signature : Signature) (slot : UInt64) (blockTime : Option ℤ) (accountKeys : List Pubkey)

def looksLikeUpdate (ix : CompiledInstruction) : Bool :=
  decide (accountKeys[ix.programIdIndex.toNat]? = some config.programId) &&
    isBlockUpdateData ix.data

def readUpdate (ix : CompiledInstruction) : Option FetchedUpdate :=
  (readBlockUpdate accountKeys ix.data ix.accounts (ix.data.getD 4 0 == 8)).map
    (⟨·, signature, slot, blockTime⟩)

def firstUpdate (instructions : List CompiledInstruction) : Option FetchedUpdate :=
  (instructions.find? (looksLikeUpdate config accountKeys)).bind
    (readUpdate signature slot blockTime accountKeys)

end Instructions

/-- A transaction that cannot be decoded has no update. -/
def fetchBlockUpdateInfo (signature : Signature) :
    Except ClientRpc.BridgeError (Option FetchedUpdate) := do
  let tx ← rpc.getTransaction signature
  match decodeTransaction cx tx.transaction with
  | .ok (some transaction) =>
    pure (firstUpdate config signature tx.slot tx.blockTime transaction.message.staticAccountKeys
      transaction.message.instructions)
  | _ => pure none

structure Collected where
  blockInfos : List FetchedUpdate
  operator : Option Pubkey
  beforeSig : Option Signature

def Collected.start : Collected := ⟨[], none, none⟩

def isBelow (height : UInt32) : Bool := fromHeight.any (height < ·)

def isAbove (height : UInt32) : Bool := toHeight.any (· < height)

/-- A transaction with the given update, or without one, was fetched. What is below the range is
passed over; the branch for what is above it is empty. -/
def Collected.add (self : Collected) (sig : Signature) (found : Option FetchedUpdate) :
    Collected :=
  match found with
  | none => { self with beforeSig := some sig }
  | some update =>
    if isBelow fromHeight update.info.blockHeight then { self with beforeSig := some sig }
    else
      -- The comment in the empty branch says: keep going in case of reorgs.
      let self := if isAbove toHeight update.info.blockHeight then self else self
      { blockInfos := self.blockInfos ++ [update]
        operator := if self.operator.isNone then update.info.operator else self.operator
        beforeSig := some sig }

def visitSignature (self : Collected) (sigInfo : SignatureInfo) :
    Except ClientRpc.BridgeError Collected :=
  match cx.parseSignature sigInfo.signature with
  | .error _ => pure self
  | .ok sig => do
    let found ← fetchBlockUpdateInfo cx rpc config sig
    pure (self.add fromHeight toHeight sig found)

def collectUpdates :
    ℕ → Collected → Option (Except ClientRpc.BridgeError Collected) :=
  drain (fun self => rpc.getSignaturesForAddress config.bridgeStatePda
    ⟨self.beforeSig, none, config.signatureBatchSize⟩)
    (visitSignature cx rpc config fromHeight toHeight)

/-- The loop of `build_operator_tx_cache`. A transaction that cannot be had is passed over, a
refusal of the rate limiter is not. -/
def cacheTransactions : List SignatureInfo → Except ClientRpc.BridgeError (List ParsedOperatorTx)
  | [] => pure []
  | sigInfo :: rest =>
    match cx.parseSignature sigInfo.signature with
    | .error _ => cacheTransactions rest
    | .ok sig =>
      match rpc.getTransaction sig with
      | .error (.rateLimited ms) => .error (.rateLimited ms)
      | .error _ => cacheTransactions rest
      | .ok tx =>
        match decodeTransaction cx tx.transaction with
        | .ok (some transaction) => do
          let cache ← cacheTransactions rest
          pure (parseOperatorTx config.toHistorySyncConfig sigInfo.slot transaction :: cache)
        | _ => cacheTransactions rest

def buildOperatorTxCache (operator : Pubkey) :
    Except ClientRpc.BridgeError (List ParsedOperatorTx) := do
  let signatures ← rpc.getSignaturesForAddress operator ⟨none, none, 1000⟩
  cacheTransactions cx rpc config signatures

def toRecord (cache : List ParsedOperatorTx) (update : FetchedUpdate) :
    Except Fault BlockRecord := do
  let (pendingMints, txoIndices) ← orFail (reconstructBuffersFromCache order cache
    (update.info.mintBuffer.getD zeroBytes) (update.info.txoBuffer.getD zeroBytes) update.slot)
    .panicked
  pure (update.toBlockRecord pendingMints txoIndices)

/-- What `fetch_blocks` does after the first pass. Without an operator the records are returned as
they were found. -/
def assembleBlocks (collected : Collected) : Except Fault (List BlockRecord) :=
  if collected.blockInfos.isEmpty then pure []
  else
    match collected.operator with
    | none => pure (collected.blockInfos.map (·.toBlockRecord [] []))
    | some operator => do
      let cache ← (buildOperatorTxCache cx rpc config operator).mapError .failed
      let blocks ← collected.blockInfos.mapM (toRecord order cache)
      pure (blocks.mergeSort fun a b => decide (a.blockHeight ≤ b.blockHeight))

def fetchBlocks (requests : ℕ) : Option (Except Fault (List BlockRecord)) :=
  (collectUpdates cx rpc config fromHeight toHeight requests .start).map fun result => do
    let collected ← result.mapError .failed
    assembleBlocks cx rpc config order collected

end Client

section Chain

variable (config : SyncConfig) (fromHeight toHeight : Option UInt32)
  (history : List ChainTransaction) (t : ChainTransaction)

def updateRecord (fixed : BlockUpdateFixedData) (isReorg : Bool)
    (extra : List FinalizedBlockMintTxoInfo) : BlockRecord :=
  ⟨fixed.header.finalizedState.blockHeight, t.signature, t.slot, t.blockTime, [], [], isReorg,
    extra⟩

def updateIn (ix : CompiledInstruction) : Option BlockRecord :=
  if t.keys[ix.programIdIndex.toNat]? = some config.programId then
    match unpack ix.data with
    | .ok (.blockUpdate fixed _ _) => some (updateRecord t fixed false [])
    | .ok (.processReorgBlocks fixed extra _ _) => some (updateRecord t fixed true extra)
    | _ => none
  else none

/-- The block updates and reorgs that ran in a transaction, at the top level or below. A failed
transaction has none. -/
def updates : List BlockRecord :=
  if t.err = none then t.executed.filterMap (updateIn config t) else []

def inRange (r : BlockRecord) : Bool :=
  !isBelow fromHeight r.blockHeight && !isAbove toHeight r.blockHeight

def expected : List BlockRecord :=
  (history.flatMap (updates config)).filter (inRange fromHeight toHeight)

def bare (r : BlockRecord) : BlockRecord := { r with txoIndices := [], pendingMints := [] }

/-- One record for every successful update in the range and no other, sorted by height. -/
structure Exact (blocks : List BlockRecord) : Prop where
  records : (blocks.map bare).Perm (expected config fromHeight toHeight history)
  sorted : blocks.Pairwise fun a b => a.blockHeight ≤ b.blockHeight

def candidate : Option CompiledInstruction :=
  t.transaction.message.instructions.find?
    (looksLikeUpdate config t.transaction.message.staticAccountKeys)

def announced (ix : CompiledInstruction) : Option FetchedUpdate :=
  readUpdate t.signature t.slot t.blockTime t.transaction.message.staticAccountKeys ix

def found : Option FetchedUpdate := (candidate config t).bind (announced t)

def kept : Option FetchedUpdate :=
  (found config t).filter fun update => !isBelow fromHeight update.info.blockHeight

/-- A transaction of which the client sees what it should. The first instruction that looks like an
update and is not below the range is the only update in the range that the transaction has, so that
the transaction did not fail and the update is not above the range; and an update in the range is
announced by that instruction. -/
structure Legible : Prop where
  sound : ∀ ix update, candidate config t = some ix → announced t ix = some update →
    isBelow fromHeight update.info.blockHeight = false →
    (updates config t).filter (inRange fromHeight toHeight) = [update.toBlockRecord [] []]
  complete : ∀ r ∈ updates config t, inRange fromHeight toHeight r = true →
    ∃ ix update, candidate config t = some ix ∧ announced t ix = some update ∧
      update.toBlockRecord [] [] = r

def keptRecords : List BlockRecord :=
  (kept config fromHeight t).toList.map (·.toBlockRecord [] [])

def keptBlocks : List BlockRecord :=
  (history.filterMap (kept config fromHeight)).map (·.toBlockRecord [] [])

def firstOperator : Option Pubkey :=
  (history.filterMap (kept config fromHeight)).findSome? (·.info.operator)

def visited (self : Collected) (t : ChainTransaction) : Collected :=
  self.add fromHeight toHeight t.signature (found config t)

def collectedOf : Collected :=
  ⟨history.filterMap (kept config fromHeight), firstOperator config fromHeight history,
    history.getLast?.map ChainTransaction.signature⟩

def parsed : ParsedOperatorTx := parseOperatorTx config.toHistorySyncConfig t.slot t.transaction

variable {config fromHeight toHeight history t}

theorem updates_signature {r : BlockRecord} (h : r ∈ updates config t) :
    r.signature = t.signature := by
  unfold updates at h
  split at h
  · obtain ⟨ix, -, hr⟩ := List.mem_filterMap.mp h
    unfold updateIn at hr
    split at hr
    · split at hr
      · cases hr
        rfl
      · cases hr
        rfl
      · cases hr
    · cases hr
  · cases h

theorem found_signature {update : FetchedUpdate} (h : found config t = some update) :
    update.signature = t.signature := by
  obtain ⟨ix, -, hread⟩ := Option.bind_eq_some_iff.mp h
  obtain ⟨info, -, rfl⟩ := Option.map_eq_some_iff.mp hread
  rfl

theorem kept_some {update : FetchedUpdate} : kept config fromHeight t = some update ↔
    found config t = some update ∧ isBelow fromHeight update.info.blockHeight = false := by
  rw [kept, Option.filter_eq_some_iff, Bool.not_eq_true']

theorem found_some {update : FetchedUpdate} : found config t = some update ↔
    ∃ ix, candidate config t = some ix ∧ announced t ix = some update :=
  Option.bind_eq_some_iff

theorem legible_iff : Legible config fromHeight toHeight t ↔
    keptRecords config fromHeight t =
      (updates config t).filter (inRange fromHeight toHeight) := by
  constructor
  · intro h
    cases hkept : kept config fromHeight t with
    | some update =>
      obtain ⟨hfound, hlow⟩ := kept_some.mp hkept
      obtain ⟨ix, hix, hread⟩ := found_some.mp hfound
      rw [keptRecords, hkept, h.sound ix update hix hread hlow]
      rfl
    | none =>
      rw [keptRecords, hkept, eq_comm]
      change _ = []
      rw [List.filter_eq_nil_iff]
      intro r hr hrange
      obtain ⟨ix, update, hix, hread, rfl⟩ := h.complete r hr hrange
      have hlow : isBelow fromHeight update.info.blockHeight = false := by
        have hboth := (Bool.and_eq_true_iff.mp hrange).1
        rwa [Bool.not_eq_true'] at hboth
      have hsome := kept_some.mpr ⟨found_some.mpr ⟨ix, hix, hread⟩, hlow⟩
      rw [hkept] at hsome
      cases hsome
  · intro h
    constructor
    · intro ix update hix hread hlow
      rw [← h, keptRecords, kept_some.mpr ⟨found_some.mpr ⟨ix, hix, hread⟩, hlow⟩]
      rfl
    · intro r hr hrange
      have hmem : r ∈ keptRecords config fromHeight t := by
        rw [h]
        exact List.mem_filter.mpr ⟨hr, hrange⟩
      obtain ⟨update, hupdate, rfl⟩ := List.mem_map.mp hmem
      obtain ⟨hfound, -⟩ := kept_some.mp (Option.mem_toList.mp hupdate)
      obtain ⟨ix, hix, hread⟩ := found_some.mp hfound
      exact ⟨ix, update, hix, hread, rfl⟩

end Chain

section Nodes

variable (cx : Codecs) (config : SyncConfig)

/-- The node lists what is older than the cursor, newest first: after the first `passed`
transactions `pageSize passed` ones, as long as there are any. For an address `a` that is asked for
once it lists `operated a`. Every fetch succeeds. -/
structure Serves (history : List ChainTransaction) (pageSize : ℕ → ℕ)
    (operated : Pubkey → List ChainTransaction) (rpc : HistoryRpc) : Prop where
  lists : ∀ before passed,
    since ChainTransaction.signature history before = history.drop passed →
      rpc.getSignaturesForAddress config.bridgeStatePda
          ⟨before, none, config.signatureBatchSize⟩ =
        .ok ((pageAt history pageSize passed).map (signatureInfo cx))
  goesOn : ∀ passed, 1 ≤ pageSize passed
  fetches : ∀ t ∈ history, cx.parseSignature (signatureName cx t) = .ok t.signature ∧
    ∃ r, rpc.getTransaction t.signature = .ok r ∧ Reports cx t r
  listsOperator : ∀ operator, rpc.getSignaturesForAddress operator ⟨none, none, 1000⟩ =
    .ok ((operated operator).map (signatureInfo cx))
  fetchesOperator : ∀ operator, ∀ t ∈ operated operator,
    cx.parseSignature (signatureName cx t) = .ok t.signature ∧
      ∃ r, rpc.getTransaction t.signature = .ok r ∧ Reports cx t r

variable {cx config} {fromHeight toHeight : Option UInt32} {t : ChainTransaction}
  {history ts : List ChainTransaction} {pageSize : ℕ → ℕ}
  {operated : Pubkey → List ChainTransaction} {rpc : HistoryRpc}

theorem visited_collectedOf :
    visited config fromHeight toHeight (collectedOf config fromHeight ts) t =
      collectedOf config fromHeight (ts ++ [t]) := by
  have hlast : (ts ++ [t]).getLast?.map ChainTransaction.signature = some t.signature := by
    rw [List.getLast?_concat, Option.map_some]
  simp only [collectedOf, firstOperator, hlast, List.filterMap_append, visited]
  cases hkept : kept config fromHeight t with
  | none =>
    rw [List.filterMap_cons_none hkept, List.filterMap_nil, List.append_nil]
    cases hfound : found config t with
    | none => rfl
    | some update =>
      have hlow : isBelow fromHeight update.info.blockHeight = true := by
        by_contra h
        have hsome := kept_some.mpr ⟨hfound, Bool.not_eq_true _ ▸ h⟩
        rw [hkept] at hsome
        cases hsome
      rw [Collected.add, if_pos hlow]
  | some update =>
    obtain ⟨hfound, hlow⟩ := kept_some.mp hkept
    rw [List.filterMap_cons_some hkept, List.filterMap_nil, List.findSome?_append, hfound,
      Collected.add, if_neg (by rw [hlow]; exact Bool.false_ne_true), ite_self]
    cases (ts.filterMap (kept config fromHeight)).findSome? (·.info.operator) with
    | none => simp
    | some operator => rfl

theorem foldl_visited :
    ts.foldl (visited config fromHeight toHeight) .start = collectedOf config fromHeight ts := by
  induction ts using List.reverseRecOn with
  | nil => rfl
  | append_singleton ts t ih =>
    rw [List.foldl_append, ih]
    exact visited_collectedOf

theorem cacheTransactions_eq
    (h : ∀ t ∈ ts, cx.parseSignature (signatureName cx t) = .ok t.signature ∧
      ∃ r, rpc.getTransaction t.signature = .ok r ∧ Reports cx t r) :
    cacheTransactions cx rpc config (ts.map (signatureInfo cx)) = .ok (ts.map (parsed config)) := by
  induction ts with
  | nil => rfl
  | cons t ts ih =>
    obtain ⟨hparse, r, hr, hreports⟩ := h t List.mem_cons_self
    have hrest := ih fun u hu => h u (List.mem_cons_of_mem _ hu)
    have hname : cx.parseSignature (signatureInfo cx t).signature = .ok t.signature := hparse
    rw [List.map_cons, cacheTransactions, hname]
    simp only [hr, hreports.transaction, hrest, bind, Except.bind]
    rfl

section

variable (hserves : Serves cx config history pageSize operated rpc)
include hserves

theorem fetch_found (ht : t ∈ history) :
    fetchBlockUpdateInfo cx rpc config t.signature = .ok (found config t) := by
  obtain ⟨-, r, hr, hreports⟩ := hserves.fetches t ht
  simp only [fetchBlockUpdateInfo, hr, bind, Except.bind, hreports.transaction, hreports.slot,
    hreports.blockTime]
  rfl

theorem collectUpdates_eq (distinct : (history.map ChainTransaction.signature).Nodup) {requests : ℕ}
    (hrequests : history.length < requests) :
    collectUpdates cx rpc config fromHeight toHeight requests .start =
      some (.ok (collectedOf config fromHeight history)) := by
  have hread (p : ℕ) : rpc.getSignaturesForAddress config.bridgeStatePda
      ⟨((history.take p).foldl (visited config fromHeight toHeight) .start).beforeSig, none,
        config.signatureBatchSize⟩ = .ok ((pageAt history pageSize p).map (signatureInfo cx)) := by
    rw [foldl_visited]
    exact hserves.lists _ p (since_take distinct p)
  have hvisit : ∀ self, ∀ t ∈ history,
      visitSignature cx rpc config fromHeight toHeight self (signatureInfo cx t) =
        .ok (visited config fromHeight toHeight self t) := by
    intro self t ht
    have hparse : cx.parseSignature (signatureInfo cx t).signature = .ok t.signature :=
      (hserves.fetches t ht).1
    rw [visitSignature, hparse]
    simp only [fetch_found hserves ht, bind, Except.bind]
    rfl
  rw [← foldl_visited]
  exact drain_all hserves.goesOn hread hvisit hrequests

theorem buildOperatorTxCache_eq (operator : Pubkey) :
    buildOperatorTxCache cx rpc config operator =
      .ok ((operated operator).map (parsed config)) := by
  rw [buildOperatorTxCache, hserves.listsOperator]
  exact cacheTransactions_eq (hserves.fetchesOperator operator)

end

end Nodes

section Operations

variable (w : Watched)

/-- The transactions behind the block update, which the client reads first. -/
def beforeUpdate (txs : List ParsedOperatorTx) : List ParsedOperatorTx :=
  txs.takeWhile fun tx => !tx.isBlockUpdate

/-- The transactions from the block update back to the one before, which is not read. -/
def fromUpdate (txs : List ParsedOperatorTx) : List ParsedOperatorTx :=
  match txs.dropWhile fun tx => !tx.isBlockUpdate with
  | [] => []
  | tx :: older => tx :: beforeUpdate older

def lastBatch (batch : Option UInt32) (lens : List (UInt32 × UInt32)) : Option UInt32 :=
  lens.foldl (fun _ l => some l.1) batch

/-- Behind the block update the batch is that of the last `set_len`, or else of the first write. -/
def inForce (txs : List ParsedOperatorTx) : Option UInt32 :=
  lastBatch ((txs.flatMap (txoEntries w)).head?.map Prod.fst) (txs.flatMap (setLens w))

/-- A write behind the block update counts if its batch is in force, and until a `set_len` changes
the batch. -/
inductive Begun : List ParsedOperatorTx → UInt32 → Prop
  | write {txs tx e} : e ∈ ownWrites w (inForce w (txs ++ [tx])) tx → Begun (txs ++ [tx]) e.2.1
  | keep {txs tx offset} : Begun txs offset →
      (∀ l ∈ setLens w tx, (inForce w txs).or ((setLens w tx).head?.map Prod.fst) = some l.1) →
      Begun (txs ++ [tx]) offset

def batchRead (txs : List ParsedOperatorTx) : Option UInt32 :=
  (inForce w (beforeUpdate txs)).or ((fromUpdate txs).flatMap (batches w)).head?

def sizeRead (txs : List ParsedOperatorTx) : UInt32 :=
  lastSize 0 ((beforeUpdate txs).flatMap (setLens w) ++
    (fromUpdate txs).flatMap (ownLens w (batchRead w txs)))

def Starts (txs : List ParsedOperatorTx) (offset : UInt32) : Prop :=
  Begun w (beforeUpdate txs) offset ∨
    ∃ e ∈ (fromUpdate txs).flatMap (ownWrites w (batchRead w txs)), e.2.1 = offset

structure Early (txs : List ParsedOperatorTx) (s : Scan) : Prop where
  new : s.foundBlockUpdate = false
  batch : s.txoBatchId = inForce w txs
  size : s.txoDataSize = lastSize 0 (txs.flatMap (setLens w))
  starts : ∀ o, o ∈ s.txoWrites ↔ Begun w txs o

variable {w} {s : Scan} {tx : ParsedOperatorTx} {txs : List ParsedOperatorTx}

theorem key_mem_insertAll {α : Type} {β : α → Type} [DecidableEq α] {m : AList β}
    {es : List (Sigma β)} {a : α} : a ∈ insertAll m es ↔ a ∈ m ∨ ∃ e ∈ es, e.1 = a := by
  induction es generalizing m with
  | nil => simp [insertAll]
  | cons e es ih =>
    rw [insertAll, List.foldl_cons, ← insertAll, ih, AList.mem_insert, eq_comm (a := a)]
    simp only [List.mem_cons, exists_eq_or_imp]
    rw [or_assoc, or_left_comm]

theorem lastBatch_or (batch more : Option UInt32) (lens : List (UInt32 × UInt32)) :
    (lastBatch batch lens).or more = lastBatch (batch.or more) lens := by
  induction lens generalizing batch with
  | nil => rfl
  | cons l lens ih => exact ih (some l.1)

theorem begun_snoc {o : UInt32} : Begun w (txs ++ [tx]) o ↔
    (Begun w txs o ∧
        ∀ l ∈ setLens w tx, (inForce w txs).or ((setLens w tx).head?.map Prod.fst) = some l.1) ∨
      ∃ e ∈ ownWrites w (inForce w (txs ++ [tx])) tx, e.2.1 = o := by
  constructor
  · intro h
    generalize hts : txs ++ [tx] = ts at h
    cases h with
    | write he =>
      obtain ⟨rfl, htx⟩ := List.append_inj' hts rfl
      cases htx
      exact .inr ⟨_, he, rfl⟩
    | keep h hsame =>
      obtain ⟨rfl, htx⟩ := List.append_inj' hts rfl
      cases htx
      exact .inl ⟨h, hsame⟩
  · rintro (⟨h, hsame⟩ | ⟨e, he, rfl⟩)
    · exact .keep h hsame
    · exact .write he

/-- Behind the block update a `set_len` of another batch drops the writes. -/
theorem scanSetLens_new (hnew : s.foundBlockUpdate = false)
    (lens : List (Pubkey × UInt32 × UInt32)) :
    let own := lens.filterMap (atTxoBuffer w)
    let s' := scanSetLens w.txoBuffer s lens
    s'.foundBlockUpdate = false ∧ s'.txoBatchId = lastBatch s.txoBatchId own ∧
      s'.txoDataSize = lastSize s.txoDataSize own ∧
      ∀ o, o ∈ s'.txoWrites ↔ o ∈ s.txoWrites ∧
        ∀ l ∈ own, s.txoBatchId.or (own.head?.map Prod.fst) = some l.1 := by
  induction lens generalizing s with
  | nil => simpa [scanSetLens, lastSize, lastBatch] using hnew
  | cons e rest ih =>
    obtain ⟨buffer, b, n⟩ := e
    by_cases hbuffer : buffer = w.txoBuffer
    · have hrest := @ih { s with txoDataSize := n, txoBatchId := some b } hnew
      cases hbatch : s.txoBatchId with
      | none => simpa [scanSetLens, atTxoBuffer, hbuffer, hbatch, lastBatch, lastSize] using hrest
      | some current =>
        by_cases hown : current = b
        · simpa [scanSetLens, atTxoBuffer, hbuffer, hbatch, hown, lastBatch, lastSize] using hrest
        · have hcleared := @ih { s with txoWrites := ∅, txoDataSize := n, txoBatchId := some b }
              hnew
          simpa [scanSetLens, atTxoBuffer, hbuffer, hbatch, hown, hnew, lastBatch, lastSize]
            using hcleared
    · simpa [scanSetLens, atTxoBuffer, hbuffer] using ih hnew

theorem Early.next (h : Early w txs s) :
    Early w (txs ++ [tx]) (scanBuffers w.mintBuffer w.txoBuffer s tx) := by
  obtain ⟨m, hm⟩ : ∃ m, tx.mintInserts.foldl (scanInsert w.mintBuffer)
      (scanReinits w.mintBuffer s tx.mintReinits) = { s with pendingMints := m } := by
    rw [scanReinits_new h.new, foldl_scanInsert_eq]
    split <;> exact ⟨_, rfl⟩
  obtain ⟨hnew, hbatch, hsize, hstarts⟩ :=
    scanSetLens_new (w := w) (s := { s with pendingMints := m }) h.new tx.txoSetLens
  have hforce : inForce w (txs ++ [tx]) = (scanSetLens w.txoBuffer { s with pendingMints := m }
      tx.txoSetLens).txoBatchId.or ((txoEntries w tx).head?.map Prod.fst) := by
    rw [hbatch, h.batch, lastBatch_or, inForce, inForce, lastBatch_or, List.flatMap_append,
      List.flatMap_append, List.head?_append, Option.map_or, List.flatMap_singleton,
      List.flatMap_singleton]
    exact List.foldl_append
  dsimp only [scanBuffers]
  rw [hm, foldl_scanWrite_eq]
  refine ⟨hnew, hforce.symm, ?_, fun o => ?_⟩
  · rw [List.flatMap_append, List.flatMap_singleton, lastSize, List.foldl_append]
    exact hsize.trans (congrArg (lastSize · _) h.size)
  · rw [begun_snoc, hforce, key_mem_insertAll, hstarts, h.starts, ← h.batch]
    simp only [List.mem_map, exists_exists_and_eq_and]
    rfl

theorem scanned_early {done : List ParsedOperatorTx} (h : Early w done s)
    (txs : List ParsedOperatorTx) :
    ∃ s', Early w (done ++ beforeUpdate txs) s' ∧
      { scanTransactions w.mintBuffer w.txoBuffer s txs with foundBlockUpdate := true } =
        (fromUpdate txs).foldl (scanBuffers w.mintBuffer w.txoBuffer)
          { s' with foundBlockUpdate := true } := by
  induction txs generalizing done s with
  | nil => exact ⟨s, by simpa [beforeUpdate] using h, rfl⟩
  | cons tx txs ih =>
    rw [scanTransactions, h.new, Bool.false_or, if_neg (by simp)]
    cases hupdate : tx.isBlockUpdate with
    | true =>
      refine ⟨s, by simpa [beforeUpdate, hupdate] using h, ?_⟩
      have hfrom : fromUpdate (tx :: txs) = tx :: beforeUpdate txs := by
        simp [fromUpdate, hupdate]
      rw [scanTransactions_found, hfrom, ← List.foldl_cons, foldl_scanBuffers rfl]
      · exact (foldl_scanBuffers rfl).symm
      · rw [scanBuffers_eq rfl]
        rfl
    | false =>
      have hstate : { s with foundBlockUpdate := false } = s := by rw [← h.new]
      have hnext : Early w (done ++ [tx]) (scanBuffers w.mintBuffer w.txoBuffer s tx) := h.next
      obtain ⟨s', hs', heq⟩ := ih hnext
      refine ⟨s', by simpa [beforeUpdate, hupdate] using hs', ?_⟩
      rw [hstate, heq]
      simp [fromUpdate, hupdate]

/-- What the scan keeps, said of the operations of the operator. -/
theorem scan_reads (txs : List ParsedOperatorTx) :
    (scanTransactions w.mintBuffer w.txoBuffer .start txs).txoDataSize = sizeRead w txs ∧
      ∀ o, o ∈ (scanTransactions w.mintBuffer w.txoBuffer .start txs).txoWrites ↔
        Starts w txs o := by
  have hstart : Early w [] .start := by
    refine ⟨rfl, rfl, rfl, fun o => ⟨nofun, fun h => ?_⟩⟩
    generalize hnil : [] = ts at h
    cases h <;> simp at hnil
  obtain ⟨s, hs, heq⟩ := scanned_early hstart txs
  rw [foldl_scanBuffers rfl] at heq
  dsimp only at heq
  rw [hs.batch] at heq
  refine ⟨(congrArg Scan.txoDataSize heq).trans ?_, fun o => ?_⟩
  · rw [sizeRead, lastSize, List.foldl_append]
    exact congrArg (lastSize · _) hs.size
  · have hwrites := congrArg Scan.txoWrites heq
    dsimp only [extended] at hwrites
    rw [hwrites, key_mem_insertAll, hs.starts]
    simp only [List.mem_map, exists_exists_and_eq_and]
    rfl

end Operations

section Buffers

variable {order : List Write → List Write}
  {cache : List ParsedOperatorTx} {update : FetchedUpdate} {r : BlockRecord}

def buffersOf (operator : Pubkey) (update : FetchedUpdate) : Watched :=
  ⟨operator, update.info.mintBuffer.getD zeroBytes, update.info.txoBuffer.getD zeroBytes⟩

/-- No write to the output buffer that is kept starts behind the length that was set for it. -/
def Contained (operator : Pubkey) (cache : List ParsedOperatorTx) (update : FetchedUpdate) : Prop :=
  let w := buffersOf operator update
  let txs := cache.filter fun tx => decide (tx.slot ≤ update.slot)
  sizeRead w txs ≠ 0 → ∀ o, Starts w txs o → o.toNat ≤ (sizeRead w txs).toNat

theorem assembleTxoIndices_isSome (horder : ∀ es, (order es).Perm es)
    (writes : AList fun _ : UInt32 => Bytes) (size : UInt32) :
    (assembleTxoIndices order writes size).isSome ↔
      (size ≠ 0 → ∀ o ∈ writes.keys, o.toNat ≤ size.toNat) := by
  unfold assembleTxoIndices
  by_cases hnone : writes.entries = [] ∨ size = 0
  · rw [if_pos hnone]
    refine ⟨fun _ hsize o ho => ?_, fun _ => rfl⟩
    rw [AList.keys, hnone.resolve_right hsize] at ho
    cases ho
  · obtain ⟨-, hsize⟩ := not_or.mp hnone
    rw [if_neg hnone, Option.isSome_map, foldlM_copyWrite, List.length_replicate]
    refine ⟨fun h _ o ho => ?_, fun h e he => ?_⟩
    · obtain ⟨e, he, rfl⟩ := List.mem_map.mp ho
      exact h e ((horder _).mem_iff.mpr he)
    · exact h hsize e.1 (List.mem_map_of_mem ((horder _).mem_iff.mp he))

theorem toRecord_bare (h : toRecord order cache update = .ok r) :
    bare r = update.toBlockRecord [] [] := by
  simp only [toRecord, bind_ok, pure_ok, Prod.exists] at h
  obtain ⟨_, _, -, rfl⟩ := h
  rfl

/-- The condition as the client meets it. -/
theorem contained_iff {operator : Pubkey} : Contained operator cache update ↔
    let s := scanTransactions (update.info.mintBuffer.getD zeroBytes)
      (update.info.txoBuffer.getD zeroBytes) .start
      (cache.filter fun tx => decide (tx.slot ≤ update.slot))
    s.txoDataSize ≠ 0 → ∀ o ∈ s.txoWrites.keys, o.toNat ≤ s.txoDataSize.toNat := by
  obtain ⟨hsize, hstarts⟩ := scan_reads (w := buffersOf operator update)
    (cache.filter fun tx => decide (tx.slot ≤ update.slot))
  dsimp only [Contained]
  simp only [← hsize, ← hstarts]
  rfl

theorem toRecord_ok (horder : ∀ es, (order es).Perm es) (operator : Pubkey) :
    (∃ r, toRecord order cache update = .ok r) ↔ Contained operator cache update := by
  rw [contained_iff, ← assembleTxoIndices_isSome horder, Option.isSome_iff_exists]
  simp only [toRecord, bind_ok, pure_ok, orFail_ok, Prod.exists]
  constructor
  · rintro ⟨r, mints, indices, h, -⟩
    obtain ⟨indices', hindices, -⟩ := Option.map_eq_some_iff.mp h
    exact ⟨indices', hindices⟩
  · rintro ⟨indices, h⟩
    exact ⟨_, _, indices, congrArg (Option.map _) h, rfl⟩

end Buffers

section Main

/-- The histories of which the client returns what it should: it sees every transaction right; if
no update that it keeps names an operator, the updates are in the order of their heights as they
are; and if one does, no write of this operator to an output buffer starts behind the size of the
buffer. -/
structure Retrievable (config : SyncConfig) (fromHeight toHeight : Option UInt32)
    (history : List ChainTransaction) (operated : Pubkey → List ChainTransaction) : Prop where
  legible : ∀ t ∈ history, Legible config fromHeight toHeight t
  ordered : firstOperator config fromHeight history = none →
    (expected config fromHeight toHeight history).Pairwise fun a b => a.blockHeight ≤ b.blockHeight
  contained : ∀ operator, firstOperator config fromHeight history = some operator →
    ∀ t ∈ history, ∀ update, kept config fromHeight t = some update →
      Contained operator ((operated operator).map (parsed config)) update

variable {cx : Codecs} {config : SyncConfig} {rpc : HistoryRpc} {t : ChainTransaction}
  {order : List Write → List Write}
  {fromHeight toHeight : Option UInt32} {history : List ChainTransaction} {pageSize : ℕ → ℕ}
  {operated : Pubkey → List ChainTransaction} {blocks : List BlockRecord}

theorem keptBlocks_eq :
    keptBlocks config fromHeight history = history.flatMap (keptRecords config fromHeight) := by
  rw [keptBlocks, List.filterMap_eq_flatMap_toList, List.map_flatMap]
  rfl

theorem expected_eq : expected config fromHeight toHeight history =
    history.flatMap fun t => (updates config t).filter (inRange fromHeight toHeight) :=
  List.filter_flatMap

theorem keptRecords_perm {rs : List BlockRecord} :
    (keptRecords config fromHeight t).Perm rs ↔ keptRecords config fromHeight t = rs := by
  unfold keptRecords
  cases kept config fromHeight t with
  | none => exact List.nil_perm.trans eq_comm
  | some update => exact List.singleton_perm

theorem keptBlocks_perm (distinct : (history.map ChainTransaction.signature).Nodup) :
    (keptBlocks config fromHeight history).Perm (expected config fromHeight toHeight history) ↔
      ∀ t ∈ history, Legible config fromHeight toHeight t := by
  have hkept (t : ChainTransaction) (r : BlockRecord)
      (hr : r ∈ keptRecords config fromHeight t) : r.signature = t.signature := by
    obtain ⟨update, hupdate, rfl⟩ := List.mem_map.mp hr
    exact found_signature (kept_some.mp (Option.mem_toList.mp hupdate)).1
  have hexpected (t : ChainTransaction) (r : BlockRecord)
      (hr : r ∈ (updates config t).filter (inRange fromHeight toHeight)) :
      r.signature = t.signature :=
    updates_signature (List.mem_filter.mp hr).1
  rw [keptBlocks_eq, expected_eq, flatMap_perm_iff distinct hkept hexpected]
  simp only [keptRecords_perm, legible_iff]

theorem keptBlocks_expected (h : ∀ t ∈ history, Legible config fromHeight toHeight t) :
    keptBlocks config fromHeight history = expected config fromHeight toHeight history := by
  rw [keptBlocks_eq, expected_eq]
  exact List.flatMap_congr fun t ht => legible_iff.mp (h t ht)

theorem keptBlocks_bare :
    (keptBlocks config fromHeight history).map bare = keptBlocks config fromHeight history := by
  rw [keptBlocks, List.map_map]
  rfl

theorem assembleBlocks_none (h : firstOperator config fromHeight history = none) :
    assembleBlocks cx rpc config order (collectedOf config fromHeight history) =
      .ok (keptBlocks config fromHeight history) := by
  have hoperator : (collectedOf config fromHeight history).operator = none := h
  rw [assembleBlocks, hoperator]
  by_cases hempty : (collectedOf config fromHeight history).blockInfos.isEmpty = true
  · have hnil : history.filterMap (kept config fromHeight) = [] := List.isEmpty_iff.mp hempty
    rw [if_pos hempty, keptBlocks, hnil]
    rfl
  · rw [if_neg hempty]
    rfl

theorem sortedByHeight (records : List BlockRecord) :
    (records.mergeSort fun a b => decide (a.blockHeight ≤ b.blockHeight)).Pairwise
      fun a b => a.blockHeight ≤ b.blockHeight := by
  have htrans (a b c : BlockRecord) : decide (a.blockHeight ≤ b.blockHeight) = true →
      decide (b.blockHeight ≤ c.blockHeight) = true →
      decide (a.blockHeight ≤ c.blockHeight) = true := by
    simp only [decide_eq_true_eq]
    exact UInt32.le_trans
  have htotal (a b : BlockRecord) : (decide (a.blockHeight ≤ b.blockHeight) ||
      decide (b.blockHeight ≤ a.blockHeight)) = true := by
    simp only [Bool.or_eq_true, decide_eq_true_eq]
    exact UInt32.le_total _ _
  refine (List.pairwise_mergeSort htrans htotal records).imp ?_
  intro a b h
  exact of_decide_eq_true h

section

variable (hserves : Serves cx config history pageSize operated rpc)
include hserves

theorem assembleBlocks_some {operator : Pubkey}
    (h : firstOperator config fromHeight history = some operator) :
    assembleBlocks cx rpc config order (collectedOf config fromHeight history) = (do
      let found ← (history.filterMap (kept config fromHeight)).mapM
        (toRecord order ((operated operator).map (parsed config)))
      pure (found.mergeSort fun a b => decide (a.blockHeight ≤ b.blockHeight))) := by
  have hoperator : (collectedOf config fromHeight history).operator = some operator := h
  have hne : ¬ (collectedOf config fromHeight history).blockInfos.isEmpty = true := by
    rw [List.isEmpty_iff]
    intro hnil
    have hnone : firstOperator config fromHeight history = none := by
      rw [firstOperator, show history.filterMap (kept config fromHeight) = [] from hnil]
      rfl
    rw [h] at hnone
    cases hnone
  rw [assembleBlocks, if_neg hne, hoperator]
  simp only [buildOperatorTxCache_eq hserves, Except.mapError, bind, Except.bind]
  rfl

theorem assembleBlocks_exact_iff (distinct : (history.map ChainTransaction.signature).Nodup)
    (horder : ∀ es, (order es).Perm es) :
    (∃ blocks, assembleBlocks cx rpc config order (collectedOf config fromHeight history) =
        .ok blocks ∧ Exact config fromHeight toHeight history blocks) ↔
      Retrievable config fromHeight toHeight history operated := by
  cases hoperator : firstOperator config fromHeight history with
  | none =>
    rw [assembleBlocks_none hoperator]
    constructor
    · rintro ⟨blocks, hblocks, hexact⟩
      cases hblocks
      have hlegible := (keptBlocks_perm distinct).mp (keptBlocks_bare ▸ hexact.records)
      refine ⟨hlegible, fun _ => keptBlocks_expected hlegible ▸ hexact.sorted, ?_⟩
      intro operator h
      rw [hoperator] at h
      cases h
    · intro h
      refine ⟨_, rfl, ?_, ?_⟩
      · rw [keptBlocks_bare]
        exact (keptBlocks_perm distinct).mpr h.legible
      · rw [keptBlocks_expected h.legible]
        exact h.ordered hoperator
  | some operator =>
    rw [assembleBlocks_some hserves hoperator]
    simp only [bind_ok, pure_ok]
    have hcontained : (∃ found, (history.filterMap (kept config fromHeight)).mapM
        (toRecord order ((operated operator).map (parsed config))) = .ok found) ↔
        ∀ t ∈ history, ∀ update, kept config fromHeight t = some update →
          Contained operator ((operated operator).map (parsed config)) update := by
      rw [mapM_succeeds]
      simp only [toRecord_ok horder operator, List.mem_filterMap]
      constructor
      · intro h t ht update hu
        exact h update ⟨t, ht, hu⟩
      · rintro h update ⟨t, ht, hu⟩
        exact h t ht update hu
    have hbare {found : List BlockRecord}
        (hfound : (history.filterMap (kept config fromHeight)).mapM
          (toRecord order ((operated operator).map (parsed config))) = .ok found) :
        ((found.mergeSort fun a b => decide (a.blockHeight ≤ b.blockHeight)).map bare).Perm
          (keptBlocks config fromHeight history) := by
      rw [keptBlocks, ← mapM_map (fun _ _ => toRecord_bare) hfound]
      exact (List.mergeSort_perm _ _).map bare
    constructor
    · rintro ⟨_, ⟨found, hfound, rfl⟩, hexact⟩
      refine ⟨(keptBlocks_perm distinct).mp ((hbare hfound).symm.trans hexact.records), ?_, ?_⟩
      · intro hnone
        rw [hoperator] at hnone
        cases hnone
      · intro operator' h
        rw [hoperator] at h
        cases h
        exact hcontained.mp ⟨found, hfound⟩
    · intro h
      obtain ⟨found, hfound⟩ := hcontained.mpr (h.contained operator hoperator)
      refine ⟨_, ⟨found, hfound, rfl⟩, ?_, ?_⟩
      · exact (hbare hfound).trans ((keptBlocks_perm distinct).mpr h.legible)
      · exact sortedByHeight found

theorem fetchBlocks_eq (distinct : (history.map ChainTransaction.signature).Nodup) {requests : ℕ}
    (hrequests : history.length < requests) :
    fetchBlocks cx rpc config order fromHeight toHeight requests =
      some (assembleBlocks cx rpc config order (collectedOf config fromHeight history)) := by
  rw [fetchBlocks, collectUpdates_eq hserves distinct hrequests]
  rfl

end

theorem returns_fetchBlocks_iff (hserves : Serves cx config history pageSize operated rpc)
    (distinct : (history.map ChainTransaction.signature).Nodup) :
    Returns (fetchBlocks cx rpc config order fromHeight toHeight) blocks ↔
      assembleBlocks cx rpc config order (collectedOf config fromHeight history) = .ok blocks := by
  constructor
  · rintro ⟨needed, hreturns⟩
    have hlate := hreturns (needed + history.length + 1) (by omega)
    rw [fetchBlocks_eq hserves distinct (by omega)] at hlate
    exact Option.some.inj hlate
  · intro h
    refine ⟨history.length, fun requests hrequests => ?_⟩
    rw [fetchBlocks_eq hserves distinct hrequests, h]

/-- `fetch_blocks` comes to an end, whatever the pages are. It returns one record for every
successful update in the range, and no other, sorted by height, only if the history is
retrievable. -/
theorem fetched_blocks_iff (hserves : Serves cx config history pageSize operated rpc)
    (distinct : (history.map ChainTransaction.signature).Nodup)
    (horder : ∀ es, (order es).Perm es) (fromHeight toHeight : Option UInt32) :
    (∃ outcome needed, ∀ requests, needed < requests →
        fetchBlocks cx rpc config order fromHeight toHeight requests = some outcome) ∧
      ((∃ blocks, Returns (fetchBlocks cx rpc config order fromHeight toHeight) blocks ∧
          Exact config fromHeight toHeight history blocks) ↔
        Retrievable config fromHeight toHeight history operated) := by
  refine ⟨⟨_, _, fun requests => fetchBlocks_eq hserves distinct⟩, ?_⟩
  simp only [returns_fetchBlocks_iff hserves distinct]
  exact assembleBlocks_exact_iff hserves distinct horder

end Main

section Sample

open LocalCluster RecordedBuffer

def sampleConfig : SyncConfig :=
  { deployed with bridgeStatePda := bridgeState, signatureBatchSize := 1 }

def updated : ChainTransaction := transactionOf 9 [updateIx]

def uploaded : ChainTransaction :=
  { transactionOf 7 txoIxs with signature := Vector.replicate 64 1 }

def sampleHistory : List ChainTransaction := [updated, uploaded]

def sampleCodecs : Codecs where
  parseSignature name := .ok (if name = "upload" then uploaded else updated).signature
  base64 name := .ok (if name = "upload" then [1] else [])
  base58 _ := .error "invalid"
  bincode bytes := .ok (if bytes = [1] then uploaded else updated).transaction
  serialize _ := []
  verify _ _ _ := true
  showPubkey _ := ""
  showSignature sig := if sig = uploaded.signature then "upload" else "update"

def sampleRpc : HistoryRpc where
  getSignaturesForAddress _ query := .ok
    (((since ChainTransaction.signature sampleHistory query.beforeSignature).take query.limit).map
      (signatureInfo sampleCodecs))
  getTransaction sig := .ok ⟨if sig = uploaded.signature then 7 else 9, none,
    .binary (sampleCodecs.showSignature sig), some ⟨none, none⟩⟩

theorem sample_reported : ∀ t ∈ sampleHistory,
    sampleCodecs.parseSignature (signatureName sampleCodecs t) = .ok t.signature ∧
      ∃ r, sampleRpc.getTransaction t.signature = .ok r ∧ Reports sampleCodecs t r := by
  simp only [sampleHistory, List.forall_mem_cons]
  refine ⟨?_, ?_, List.forall_mem_nil _⟩ <;>
    exact ⟨rfl, _, rfl, rfl, rfl, rfl, ⟨_, rfl, rfl⟩, rfl⟩

theorem sample_serves : Serves sampleCodecs sampleConfig sampleHistory (fun _ => 1)
    (fun _ => sampleHistory) sampleRpc where
  lists := by
    intro before passed h
    simp only [sampleRpc, h, pageAt]
    rfl
  goesOn _ := le_rfl
  fetches := sample_reported
  listsOperator _ := rfl
  fetchesOperator _ := sample_reported

theorem sample_distinct : (sampleHistory.map ChainTransaction.signature).Nodup := by decide

def sampleUpdate : FetchedUpdate where
  info := ⟨11, false, [], some mintBufferKey, some txoBufferKey, some operatorKey⟩
  signature := updated.signature
  slot := 9
  blockTime := none

theorem sample_found : found sampleConfig updated = some sampleUpdate := by
  have hcandidate : candidate sampleConfig updated = some updateIx := by decide +kernel
  have hread : BridgeMonitor.arguments updateIx.data BlockUpdateFixedData.pod =
      some firstBlock := by
    refine BridgeMonitor.arguments_read (by decide +kernel) ?_
    rw [show updateIx.data.drop 8 = BlockUpdateFixedData.pod.encode firstBlock from rfl]
    exact BlockUpdateFixedData.pod.read_encode firstBlock
  rw [found, hcandidate, Option.bind_some, announced, readUpdate, readBlockUpdate, hread]
  rfl

theorem sample_updates : updates sampleConfig updated = [sampleUpdate.toBlockRecord [] []] := by
  have hread : unpack updateIx.data = .ok (.blockUpdate firstBlock 253 254) :=
    InstructionCodec.unpack_instructionData (.blockUpdate firstBlock 253 254)
  have hone : updateIn sampleConfig updated updateIx = some (sampleUpdate.toBlockRecord [] []) := by
    have hprogram : updated.keys[updateIx.programIdIndex.toNat]? = some sampleConfig.programId :=
      rfl
    rw [updateIn, if_pos hprogram, hread]
    rfl
  have hexecuted : updated.executed = [updateIx] := executed_transactionOf 9 [updateIx]
  have hok : updated.err = none := rfl
  rw [updates, if_pos hok, hexecuted, List.filterMap_cons_some hone, List.filterMap_nil]

theorem upload_unread (fromHeight : Option UInt32) :
    kept sampleConfig fromHeight uploaded = none ∧ updates sampleConfig uploaded = [] := by
  have hcandidate : candidate sampleConfig uploaded = none := by decide +kernel
  have hexecuted : uploaded.executed = txoIxs := executed_transactionOf 7 txoIxs
  have hnone : ∀ ix ∈ txoIxs, updateIn sampleConfig uploaded ix = none := by
    simp only [txoIxs, List.forall_mem_cons]
    exact ⟨if_neg (by decide), if_neg (by decide), List.forall_mem_nil _⟩
  rw [kept, found, hcandidate, updates, hexecuted, List.filterMap_eq_nil_iff.mpr hnone, ite_self]
  exact ⟨rfl, rfl⟩

theorem sample_retrievable {fromHeight toHeight : Option UInt32}
    (hlow : isBelow fromHeight 11 = false) (hhigh : isAbove toHeight 11 = false) :
    Retrievable sampleConfig fromHeight toHeight sampleHistory fun _ => sampleHistory := by
  have hkept : kept sampleConfig fromHeight updated = some sampleUpdate :=
    kept_some.mpr ⟨sample_found, hlow⟩
  obtain ⟨hunread, hnone⟩ := upload_unread fromHeight
  have hrange : inRange fromHeight toHeight (sampleUpdate.toBlockRecord [] []) = true :=
    Bool.and_eq_true_iff.mpr ⟨Bool.not_eq_true' _ ▸ hlow, Bool.not_eq_true' _ ▸ hhigh⟩
  refine ⟨?_, ?_, ?_⟩
  · simp only [sampleHistory, List.forall_mem_cons, legible_iff, keptRecords, hkept, hunread,
      sample_updates, hnone, List.filter_cons_of_pos hrange]
    exact ⟨rfl, rfl, List.forall_mem_nil _⟩
  · intro h
    rw [firstOperator, sampleHistory, List.filterMap_cons_some hkept] at h
    cases h
  · intro operator _
    simp only [sampleHistory, List.forall_mem_cons, hkept, hunread]
    refine ⟨?_, nofun, List.forall_mem_nil _⟩
    rintro _ ⟨⟩
    -- deciding the condition itself could mean to try every offset
    rw [contained_iff, ← assembleTxoIndices_isSome fun es => List.Perm.refl es]
    decide +kernel

/-- The update of height 11 is fetched for the range from 11 to 11. -/
theorem first_block_fetched : ∃ blocks,
    Returns (fetchBlocks sampleCodecs sampleRpc sampleConfig id (some 11) (some 11)) blocks ∧
      Exact sampleConfig (some 11) (some 11) sampleHistory blocks := by
  have h := fetched_blocks_iff sample_serves sample_distinct (fun _ => List.Perm.refl _)
    (some 11) (some 11)
  exact h.2.mpr (sample_retrievable (by decide) (by decide))

/-- The update of height 11 is fetched for the range from 5 to 7 as well: the bound above is
compared, and nothing follows from the comparison. -/
theorem block_above_range_fetched : ∃ blocks,
    Serves sampleCodecs sampleConfig sampleHistory (fun _ => 1) (fun _ => sampleHistory)
        sampleRpc ∧
      Returns (fetchBlocks sampleCodecs sampleRpc sampleConfig id (some 5) (some 7)) blocks ∧
      blocks.map BlockRecord.blockHeight = [11] ∧
      expected sampleConfig (some 5) (some 7) sampleHistory = [] := by
  have hopen : Retrievable sampleConfig (some 5) none sampleHistory fun _ => sampleHistory :=
    sample_retrievable (by decide) rfl
  obtain ⟨blocks, hblocks, hexact⟩ :=
    (assembleBlocks_exact_iff sample_serves sample_distinct fun _ => List.Perm.refl _).mpr hopen
  have hall : sampleHistory.flatMap (updates sampleConfig) =
      [sampleUpdate.toBlockRecord [] []] := by
    rw [sampleHistory, List.flatMap_cons, List.flatMap_singleton, sample_updates,
      (upload_unread none).2, List.append_nil]
  refine ⟨blocks, sample_serves,
    (returns_fetchBlocks_iff sample_serves sample_distinct).mpr hblocks, ?_, ?_⟩
  · have hrecords := hexact.records
    rw [expected, hall] at hrecords
    have hheights := congrArg (List.map BlockRecord.blockHeight) (List.perm_singleton.mp hrecords)
    rwa [List.map_map] at hheights
  · rw [expected, hall]
    rfl

end Sample

end FetchedBlocks
