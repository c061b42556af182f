import PsyDogeBridge.BridgeProcessor
import PsyDogeBridge.MonitorRuns

/-! The monitor of the instructions of the bridge: what it reads from a transaction and what it
should read. -/
namespace BridgeMonitor

open PodLayout CheckedSteps SolanaRuntime BridgeData BridgeProcessor ClientRpc MonitorRuns

structure WithdrawalRequestedEvent where
  signature : Signature
  slot : UInt64
  blockTime : Option ℤ
  amountSats : UInt64
  recipientAddress : Vector UInt8 20
  addressType : UInt32
  userPubkey : Pubkey
  withdrawalIndex : UInt64
  deriving DecidableEq

structure WithdrawalProcessedEvent where
  signature : Signature
  slot : UInt64
  blockTime : Option ℤ
  newReturnOutputSighash : QHash256
  newReturnOutputIndex : UInt64
  newReturnOutputAmount : UInt64
  newSpentTxoTreeRoot : QHash256
  newNextProcessedWithdrawalsIndex : UInt64
  deriving DecidableEq

structure ManualDepositClaimedEvent where
  signature : Signature
  slot : UInt64
  blockTime : Option ℤ
  txHash : QHash256
  combinedTxoIndex : UInt64
  depositAmountSats : UInt64
  depositorPubkey : Vector UInt8 32
  claimerPubkey : Pubkey
  deriving DecidableEq

inductive BridgeEvent where
  | withdrawalRequested (e : WithdrawalRequestedEvent)
  | withdrawalProcessed (e : WithdrawalProcessedEvent)
  | manualDepositClaimed (e : ManualDepositClaimedEvent)
  deriving DecidableEq

structure MonitorConfig where
  programId : Pubkey
  bridgeStatePda : Pubkey
  batchSize : ℕ

def MonitorConfig.new (programId bridgeStatePda : Pubkey) : MonitorConfig :=
  ⟨programId, bridgeStatePda, 100⟩

section Parsing

variable (signature : Signature) (slot : UInt64) (blockTime : Option ℤ) (ixData accounts : Bytes)
  (accountKeys : List Pubkey)

def firstAccount : Pubkey :=
  match accounts[0]? with
  | some i => accountKeys.getD i.toNat zeroBytes
  | none => zeroBytes

def withdrawalRequested (request : PsyWithdrawalRequest) : BridgeEvent :=
  .withdrawalRequested ⟨signature, slot, blockTime, request.amountSats, request.recipientAddress,
    request.addressType, firstAccount accounts accountKeys, 0⟩

def withdrawalProcessed (data : ProcessWithdrawalInstructionData) : BridgeEvent :=
  .withdrawalProcessed ⟨signature, slot, blockTime, data.newReturnOutput.sighash,
    data.newReturnOutput.outputIndex, data.newReturnOutput.amountSats, data.newSpentTxoTreeRoot,
    data.newNextProcessedWithdrawalsIndex⟩

def manualDepositClaimed (data : ProcessManualDepositInstructionData) : BridgeEvent :=
  .manualDepositClaimed ⟨signature, slot, blockTime, data.txHash, data.combinedTxoIndex,
    data.depositAmountSats, data.depositorSolanaPublicKey, firstAccount accounts accountKeys⟩

/-- The arguments after the header of 8 bytes; what follows them is not read. -/
def arguments {α : Type} (p : Pod α) : Option α :=
  if ixData.length < 8 + p.size then none else some (p.decode (slice ixData 8 p.size))

def parseWithdrawalRequest : Option BridgeEvent :=
  (arguments ixData PsyWithdrawalRequest.pod).map
    (withdrawalRequested signature slot blockTime accounts accountKeys)

def parseProcessWithdrawal : Option BridgeEvent :=
  (arguments ixData ProcessWithdrawalInstructionData.pod).map
    (withdrawalProcessed signature slot blockTime)

def parseManualDeposit : Option BridgeEvent :=
  (arguments ixData ProcessManualDepositInstructionData.pod).map
    (manualDepositClaimed signature slot blockTime accounts accountKeys)

/-- The event of an instruction with the given discriminator. -/
def eventAt (ix : CompiledInstruction) : ℕ → Option BridgeEvent
  | 2 => parseWithdrawalRequest signature slot blockTime ix.data ix.accounts accountKeys
  | 3 => parseProcessWithdrawal signature slot blockTime ix.data
  | 5 => parseManualDeposit signature slot blockTime ix.data ix.accounts accountKeys
  | _ => none

/-- The body of the loop over the instructions. The discriminator is read at byte 4. -/
def parseInstruction (programId : Pubkey) (ix : CompiledInstruction) : Option BridgeEvent :=
  if accountKeys[ix.programIdIndex.toNat]? ≠ some programId then none
  else if ix.data = [] then none
  else if ix.data.length < 5 then none
  else eventAt signature slot blockTime accountKeys ix (ix.data.getD 4 0).toNat

def eventOf : BridgeInstruction → Option BridgeEvent
  | .requestWithdrawal request =>
    some (withdrawalRequested signature slot blockTime accounts accountKeys request)
  | .processWithdrawal params => some (withdrawalProcessed signature slot blockTime params)
  | .processManualDeposit params =>
    some (manualDepositClaimed signature slot blockTime accounts accountKeys params)
  | _ => none

end Parsing

/-- The first instruction that is recognised gives the event of the transaction. Whether the
transaction failed is not looked at, and neither are the inner instructions. -/
def parseTransactionStatic (cx : Codecs) (programId : Pubkey) (rpc : Rpc) (signature : Signature) :
    Except ClientRpc.BridgeError (Option BridgeEvent) := do
  let tx ← rpc.getTransaction signature
  match ← decodeTransaction cx tx.transaction with
  | none => pure none
  | some transaction =>
    pure (transaction.message.instructions.findSome? (parseInstruction signature tx.slot
      tx.blockTime transaction.message.staticAccountKeys programId))

def MonitorConfig.monitor (config : MonitorConfig) (cx : Codecs) : Monitor BridgeEvent :=
  ⟨config.bridgeStatePda, config.batchSize, parseTransactionStatic cx config.programId⟩

def pollOnce (cx : Codecs) (rpc : Rpc) (send : BridgeEvent → Bool) (config : MonitorConfig)
    (afterSignature : Option Signature) : Polled BridgeEvent :=
  (config.monitor cx).pollOnce cx rpc send afterSignature

section Matching

variable {cx : Codecs} {config : MonitorConfig} {t : ChainTransaction} {ix : CompiledInstruction}

def recognized (config : MonitorConfig) (t : ChainTransaction) : CompiledInstruction →
    Option BridgeEvent :=
  parseInstruction t.signature t.slot t.blockTime t.transaction.message.staticAccountKeys
    config.programId

def addressed (config : MonitorConfig) (t : ChainTransaction) (ix : CompiledInstruction) : Prop :=
  t.keys[ix.programIdIndex.toNat]? = some config.programId

instance : Decidable (addressed config t ix) := inferInstanceAs (Decidable (_ = _))

def instructionEvent (config : MonitorConfig) (t : ChainTransaction) (ix : CompiledInstruction) :
    Option BridgeEvent :=
  if addressed config t ix then
    match unpack ix.data with
    | .ok i => eventOf t.signature t.slot t.blockTime ix.accounts t.keys i
    | .error _ => none
  else none

def events (config : MonitorConfig) (t : ChainTransaction) : List BridgeEvent :=
  if t.err = none then t.executed.filterMap (instructionEvent config t) else []

theorem arguments_read {α : Type} {p : Pod α} {data : Bytes} {a : α} (h8 : 8 ≤ data.length)
    (h : p.read (data.drop 8) = some a) : arguments data p = some a := by
  unfold Pod.read at h
  split at h
  · next hlen =>
    rw [List.length_drop] at hlen
    rw [arguments, if_neg (by omega), ← h, slice, List.take_of_length_le]
    rw [List.length_drop]
    omega
  · cases h

section Kinds

variable {signature : Signature} {slot : UInt64} {blockTime : Option ℤ} {programId : Pubkey}
  {accountKeys : List Pubkey} {i : BridgeInstruction}

theorem parseInstruction_eq (ha : accountKeys[ix.programIdIndex.toNat]? = some programId)
    (h8 : 8 ≤ ix.data.length) :
    parseInstruction signature slot blockTime accountKeys programId ix =
      eventAt signature slot blockTime accountKeys ix (ix.data.getD 4 0).toNat := by
  have hne : ix.data ≠ [] := by
    intro h
    rw [h] at h8
    cases h8
  unfold parseInstruction
  rw [if_neg (by rw [ha]; simp), if_neg hne, if_neg (by omega)]

theorem unpack_long {data : Bytes} (hi : unpack data = .ok i) : 8 ≤ data.length := by
  simp only [unpack, bind_ok, ensure_ok, exists_const] at hi
  exact hi.2.1

theorem eventOf_unpack (hi : unpack ix.data = .ok i) :
    eventOf signature slot blockTime ix.accounts accountKeys i =
      eventAt signature slot blockTime accountKeys ix (ix.data.getD 0 0).toNat := by
  simp only [unpack, bind_ok, ensure_ok, exists_const] at hi
  obtain ⟨-, h8, hi⟩ := hi
  generalize (ix.data.getD 0 0).toNat = b at hi
  split at hi
  case h_3 | h_4 | h_6 =>
    obtain ⟨_, hread, rfl⟩ := map_ok.mp hi
    exact (congrArg (Option.map _) (arguments_read h8 (orFail_ok.mp hread))).symm
  case h_1 | h_2 =>
    obtain ⟨_, -, rfl⟩ := map_ok.mp hi
    rfl
  case h_5 | h_7 | h_11 =>
    cases hi
    rfl
  case h_8 | h_10 =>
    obtain ⟨-, rfl⟩ := by simpa only [bind_ok, ensure_ok, exists_const, pure_ok] using hi
    rfl
  case h_9 =>
    obtain ⟨_, _, -, rfl⟩ := by simpa only [bind_ok, pure_ok, Prod.exists] using hi
    rfl
  case h_12 => cases hi

theorem eventOf_keys {accounts : Bytes} {keys : List Pubkey}
    (h : ∀ j, accounts[0]? = some j → keys[j.toNat]? = accountKeys[j.toNat]?) :
    eventOf signature slot blockTime accounts keys i =
      eventOf signature slot blockTime accounts accountKeys i := by
  have hfirst : firstAccount accounts keys = firstAccount accounts accountKeys := by
    unfold firstAccount
    cases haccount : accounts[0]? with
    | none => rfl
    | some j => simp only [List.getD_eq_getElem?_getD, h j haccount]
  cases i with
  | requestWithdrawal request => simp only [eventOf, withdrawalRequested, hfirst]
  | processManualDeposit params => simp only [eventOf, manualDepositClaimed, hfirst]
  | _ => rfl

theorem eventOf_none {accounts : Bytes} {keys : List Pubkey}
    (h : eventOf signature slot blockTime accounts keys i = none) :
    eventOf signature slot blockTime accounts accountKeys i = none := by
  cases i with
  | requestWithdrawal | processWithdrawal | processManualDeposit => cases h
  | _ => rfl

end Kinds

/-- A transaction from which the monitor reads what it should. If it failed, none of its
instructions looks like a matching one. If not, its instructions for the bridge have the header
that the clients write and are decoded by the bridge, at most one of them matches, none matches
below the top level, and one that matches has its program and its first account among the keys of
the message and lists the address that the monitor asks for. -/
structure Ordinary (config : MonitorConfig) (t : ChainTransaction) : Prop where
  failed : t.err ≠ none → ∀ ix ∈ t.transaction.message.instructions, recognized config t ix = none
  decoded : t.err = none → ∀ ix ∈ t.transaction.message.instructions, addressed config t ix →
    (∃ i, unpack ix.data = .ok i) ∧ ix.data.getD 4 0 = ix.data.getD 0 0
  static : t.err = none → ∀ ix ∈ t.transaction.message.instructions,
    instructionEvent config t ix ≠ none → t.Static (ix.programIdIndex :: ix.accounts.take 1)
  single : t.err = none →
    (t.transaction.message.instructions.filterMap (instructionEvent config t)).length ≤ 1
  top : t.err = none → ∀ ixs ∈ t.inner, ∀ ix ∈ ixs, instructionEvent config t ix = none
  listed : config.bridgeStatePda ∉ t.keys → events config t = []

/-- On such a transaction the monitor and the bridge agree on every instruction. -/
theorem Ordinary.recognized_eq (h : Ordinary config t) (ok : t.err = none)
    (hix : ix ∈ t.transaction.message.instructions) :
    recognized config t ix = instructionEvent config t ix := by
  by_cases ha : addressed config t ix
  · obtain ⟨⟨i, hi⟩, hbyte⟩ := h.decoded ok ix hix ha
    have hevent : instructionEvent config t ix =
        eventOf t.signature t.slot t.blockTime ix.accounts t.keys i := by
      rw [instructionEvent, if_pos ha, hi]
    by_cases hs : t.transaction.message.staticAccountKeys[ix.programIdIndex.toNat]? =
        some config.programId
    · rw [recognized, parseInstruction_eq hs (unpack_long hi), hbyte, ← eventOf_unpack hi, hevent]
      by_cases hnone : instructionEvent config t ix = none
      · rw [hevent] at hnone
        rw [hnone, eventOf_none hnone]
      · refine eventOf_keys fun j hj => (h.static ok ix hix hnone).key ?_
        have htaken := (List.getElem?_take_of_lt Nat.one_pos).trans hj
        exact List.mem_cons_of_mem _ (List.mem_of_getElem? htaken)
    · rw [recognized, parseInstruction, if_pos hs]
      by_contra hne
      exact hs (((h.static ok ix hix (Ne.symm hne)).key List.mem_cons_self).trans ha)
  · rw [instructionEvent, if_neg ha]
    exact if_pos fun hs => ha (ChainTransaction.static_key hs)

theorem Ordinary.reads (h : Ordinary config t) :
    Reads cx (config.monitor cx) (events config) t := by
  intro rpc r hr hreports
  refine ⟨t.transaction.message.instructions.findSome? (recognized config t), ?_, ?_⟩
  · rw [recognized, ← hreports.slot, ← hreports.blockTime]
    exact bind_ok.mpr ⟨r, hr, bind_ok.mpr ⟨_, hreports.transaction, rfl⟩⟩
  · unfold events
    split
    · next ok =>
      have hsame : t.transaction.message.instructions.filterMap (recognized config t) =
          t.transaction.message.instructions.filterMap (instructionEvent config t) :=
        List.filterMap_congr fun ix hix => h.recognized_eq ok hix
      rw [toList_findSome (hsame ▸ h.single ok), hsame,
        ChainTransaction.executed_top ok (h.top ok)]
    · next ok =>
      rw [List.findSome?_eq_none_iff.mpr (h.failed ok)]
      rfl

end Matching

end BridgeMonitor
