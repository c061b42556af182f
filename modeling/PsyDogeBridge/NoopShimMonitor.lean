import PsyDogeBridge.BridgeCalls
import PsyDogeBridge.MonitorRuns

/-! The monitor of the messages that the bridge posts to the noop shim. -/
namespace NoopShimMonitor

open PodLayout CheckedSteps SolanaRuntime BridgeData BridgeCalls ClientRpc MonitorRuns

structure NoopShimWithdrawalMessage where
  signature : Signature
  slot : UInt64
  blockTime : Option ℤ
  nonce : UInt32
  consistencyLevel : UInt8
  sighash : QHash256
  dogeTxBytes : Bytes
  emitter : Pubkey
  payer : Pubkey
  deriving DecidableEq

structure NoopShimMonitorConfig where
  noopShimProgramId : Pubkey
  bridgeStatePda : Pubkey
  batchSize : ℕ

def NoopShimMonitorConfig.new (bridgeStatePda : Pubkey) : NoopShimMonitorConfig :=
  ⟨NOOP_SHIM_PROGRAM_ID, bridgeStatePda, 100⟩

structure WithdrawalPage where
  messages : List NoopShimWithdrawalMessage
  nextCursor : Option Signature
  hasMore : Bool

section Client

variable (cx : Codecs) (config : NoopShimMonitorConfig) (rpc : Rpc)

/-- The required signatures one after another: the first that is missing makes the monitor skip
the transaction, the first that is wrong is an error. -/
def verifySignatures (signature : Signature) (tx : VersionedTransaction) :
    List ℕ → Except ClientRpc.BridgeError Bool
  | [] => .ok true
  | i :: rest =>
    match tx.signatures[i]?, tx.message.staticAccountKeys[i]? with
    | some sig, some pubkey =>
      if cx.verify sig pubkey (cx.serialize tx.message) then
        verifySignatures signature tx rest
      else .error (.invalidInput ("Invalid signature from " ++ cx.showPubkey pubkey ++
        " on transaction " ++ cx.showSignature signature))
    | _, _ => .ok false

/-- The body of the loop over the inner instructions: 8 bytes of discriminator, 4 of nonce, 1 of
consistency level, 4 of payload length, then the payload, which starts with the sighash. -/
def parseInstruction (signature : Signature) (slot : UInt64) (blockTime : Option ℤ)
    (accountKeys : List Pubkey) (ix : CompiledInstruction) : Option NoopShimWithdrawalMessage :=
  if accountKeys[ix.programIdIndex.toNat]? ≠ some config.noopShimProgramId then none
  else if ix.data.length < 17 then none
  else if slice ix.data 0 8 ≠ WORMHOLE_VAA_DISCRIMINATOR then none
  else
    let payloadLen := leValue (slice ix.data 13 4)
    if ix.data.length < 17 + payloadLen then none
    else
      let payload := slice ix.data 17 payloadLen
      if payload.length < 32 then none
      else
        match ix.accounts[2]? with
        | none => none
        | some emitter =>
          match accountKeys[emitter.toNat]? with
          | none => none
          | some emitter => some
            { signature, slot, blockTime, emitter
              nonce := Pod.u32.decode (slice ix.data 8 4)
              consistencyLevel := ix.data.getD 12 0
              sighash := hashPod.decode (payload.take 32)
              dogeTxBytes := payload.drop 32
              payer := match ix.accounts[4]? with
                | some payer => accountKeys.getD payer.toNat zeroBytes
                | none => zeroBytes }

/-- The first inner instruction that is recognised gives the message of the transaction. Whether
the transaction failed is not looked at. -/
def parseTransactionStatic (signature : Signature) :
    Except ClientRpc.BridgeError (Option NoopShimWithdrawalMessage) := do
  let tx ← rpc.getTransaction signature
  match ← decodeTransaction cx tx.transaction with
  | none => pure none
  | some transaction =>
    let verified ← verifySignatures cx signature transaction
      (List.range transaction.message.numRequiredSignatures.toNat)
    if verified then
      pure (tx.inner.findSome? fun ixs => ixs.findSome? fun ix =>
        (decodeInstruction cx ix).bind (parseInstruction config signature tx.slot tx.blockTime
          transaction.message.staticAccountKeys))
    else pure none

def fromEmitter (message : NoopShimWithdrawalMessage) : Bool :=
  message.emitter = config.bridgeStatePda

/-- What a signature that a node lists contributes; one that cannot be parsed is passed over. -/
def fetchMessage (name : String) :
    Except ClientRpc.BridgeError (Option NoopShimWithdrawalMessage) :=
  match cx.parseSignature name with
  | .error _ => .ok none
  | .ok sig => return (← parseTransactionStatic cx config rpc sig).filter (fromEmitter config)

def fetchMessages :
    List String → Except ClientRpc.BridgeError (List NoopShimWithdrawalMessage)
  | [] => pure []
  | name :: rest => do
    let message ← fetchMessage cx config rpc name
    let messages ← fetchMessages rest
    pure (message.toList ++ messages)

def getWithdrawals (before : Option Signature) (limit : ℕ) :
    Except ClientRpc.BridgeError WithdrawalPage := do
  let names ← rpc.getSignaturesForAddress config.noopShimProgramId ⟨before, none, limit + 1⟩
  let hasMore := limit < names.length
  let toProcess := names.take limit
  let messages ← fetchMessages cx config rpc toProcess
  let lastSig := (toProcess.filterMap fun name => (cx.parseSignature name).toOption).getLast?
  pure ⟨messages, if hasMore then lastSig else none, hasMore⟩

/-- The loop of `fetch_since`, newest page first, with the node of each round; `none` stands for
a loop that has not ended. -/
def fetchPages (afterSignature : Option Signature) (limit : ℕ) :
    List Rpc → Option Signature → List NoopShimWithdrawalMessage →
      Except ClientRpc.BridgeError (Option (List NoopShimWithdrawalMessage))
  | rpcs, before, messages =>
    if limit ≤ messages.length then .ok (some messages)
    else
      match rpcs with
      | [] => .ok none
      | rpc :: rpcs => do
        let names ← rpc.getSignaturesForAddress config.noopShimProgramId
          ⟨before, afterSignature, min config.batchSize (limit - messages.length)⟩
        if names = [] then pure (some messages)
        else
          let found ← fetchMessages cx config rpc names
          fetchPages afterSignature limit rpcs
            (names.getLast?.bind fun name => (cx.parseSignature name).toOption) (messages ++ found)

def fetchSince (rpcs : List Rpc) (afterSignature : Option Signature) (limit : Option ℕ) :
    Except ClientRpc.BridgeError (Option (List NoopShimWithdrawalMessage)) := do
  let found ← fetchPages cx config afterSignature (limit.getD (2 ^ 64 - 1)) rpcs none []
  pure (found.map List.reverse)

end Client

def NoopShimMonitorConfig.monitor (config : NoopShimMonitorConfig) (cx : Codecs) :
    Monitor NoopShimWithdrawalMessage where
  address := config.noopShimProgramId
  batchSize := config.batchSize
  parse rpc sig := return (← parseTransactionStatic cx config rpc sig).filter (fromEmitter config)

def pollOnce (cx : Codecs) (rpc : Rpc) (send : NoopShimWithdrawalMessage → Bool)
    (config : NoopShimMonitorConfig) (afterSignature : Option Signature) :
    Polled NoopShimWithdrawalMessage :=
  (config.monitor cx).pollOnce cx rpc send afterSignature

section Parsing

variable {config : NoopShimMonitorConfig} {signature : Signature} {slot : UInt64}
  {blockTime : Option ℤ} {keys : List Pubkey} {ix : CompiledInstruction}
  {message : NoopShimWithdrawalMessage}

def payloadOf (data : Bytes) : Bytes := slice data 17 (leValue (slice data 13 4))

structure MessageData (data : Bytes) : Prop where
  long : 17 ≤ data.length
  discriminator : slice data 0 8 = WORMHOLE_VAA_DISCRIMINATOR
  inside : 17 + leValue (slice data 13 4) ≤ data.length
  sighash : 32 ≤ leValue (slice data 13 4)

theorem MessageData.payload_length {data : Bytes} (h : MessageData data) :
    (payloadOf data).length = leValue (slice data 13 4) := slice_length h.inside

theorem parseInstruction_iff :
    parseInstruction config signature slot blockTime keys ix = some message ↔
      keys[ix.programIdIndex.toNat]? = some config.noopShimProgramId ∧ MessageData ix.data ∧
      ∃ e emitter, ix.accounts[2]? = some e ∧ keys[e.toNat]? = some emitter ∧
        message = { signature, slot, blockTime, emitter
                    nonce := Pod.u32.decode (slice ix.data 8 4)
                    consistencyLevel := ix.data.getD 12 0
                    sighash := hashPod.decode ((payloadOf ix.data).take 32)
                    dogeTxBytes := (payloadOf ix.data).drop 32
                    payer := match ix.accounts[4]? with
                      | some payer => keys.getD payer.toNat zeroBytes
                      | none => zeroBytes } := by
  unfold parseInstruction
  dsimp only
  by_cases hprogram : keys[ix.programIdIndex.toNat]? = some config.noopShimProgramId
  · rw [if_neg (not_not.mpr hprogram), and_iff_right hprogram]
    by_cases hdata : MessageData ix.data
    · have hsighash : 32 ≤ (slice ix.data 17 (leValue (slice ix.data 13 4))).length := by
        rw [slice_length hdata.inside]
        exact hdata.sighash
      rw [if_neg (Nat.not_lt.mpr hdata.long), if_neg (not_not.mpr hdata.discriminator),
        if_neg (Nat.not_lt.mpr hdata.inside), if_neg (Nat.not_lt.mpr hsighash), and_iff_right hdata]
      cases haccount : ix.accounts[2]? with
      | none => simp
      | some e =>
        cases hemitter : keys[e.toNat]? with
        | none => simp [hemitter]
        | some emitter => simp [hemitter, payloadOf, eq_comm]
    · refine iff_of_false ?_ fun h => hdata h.1
      split_ifs with hlong hdiscriminator hinside hsighash
      · simp
      · simp
      · simp
      · simp
      · have hin := Nat.not_lt.mp hinside
        rw [slice_length hin] at hsighash
        exact absurd ⟨Nat.not_lt.mp hlong, not_not.mp hdiscriminator, hin, Nat.not_lt.mp hsighash⟩
          hdata
  · rw [if_pos hprogram]
    exact iff_of_false (by simp) fun h => hprogram h.1

end Parsing

section Matching

variable (cx : Codecs) (config : NoopShimMonitorConfig) (t : ChainTransaction)

def recognized : CompiledInstruction → Option NoopShimWithdrawalMessage :=
  parseInstruction config t.signature t.slot t.blockTime t.transaction.message.staticAccountKeys

/-- The message that an instruction posts, with all keys of the transaction. -/
def posted : CompiledInstruction → Option NoopShimWithdrawalMessage :=
  parseInstruction config t.signature t.slot t.blockTime t.keys

/-- The messages of a transaction: one for each instruction that posts one for the bridge, none
if the transaction failed. -/
def events : List NoopShimWithdrawalMessage :=
  if t.err = none then (t.executed.filterMap (posted config t)).filter (fromEmitter config)
  else []

/-- The keys that the monitor reads: the program, the emitter and the payer. -/
def readKeys (ix : CompiledInstruction) : Bytes :=
  ix.programIdIndex :: (ix.accounts[2]?.toList ++ ix.accounts[4]?.toList)

/-- The required signatures are there and right, as the runtime has checked. -/
def Signed (tx : VersionedTransaction) : Prop :=
  ∀ i < tx.message.numRequiredSignatures.toNat, ∃ sig pubkey, tx.signatures[i]? = some sig ∧
    tx.message.staticAccountKeys[i]? = some pubkey ∧
    cx.verify sig pubkey (cx.serialize tx.message) = true

/-- A transaction from which the monitor reads what it should. If it failed, none of the
instructions that it called looks like a message. If not, at most one does, it is not at the top
level, and the keys that the monitor reads are keys of the message. -/
structure Ordinary : Prop where
  signed : Signed cx t.transaction
  failed : t.err ≠ none → ∀ ix ∈ t.inner.flatten, recognized config t ix = none
  static : t.err = none → ∀ ix ∈ t.inner.flatten, posted config t ix ≠ none →
    t.Static (readKeys ix)
  single : t.err = none → (t.inner.flatten.filterMap (posted config t)).length ≤ 1
  below : t.err = none → ∀ ix ∈ t.transaction.message.instructions, posted config t ix = none

variable {cx config t} {ix : CompiledInstruction}

theorem recognized_eq_posted (h : t.Static (readKeys ix)) :
    recognized config t ix = posted config t ix := by
  have hprogram := h.key (i := ix.programIdIndex) List.mem_cons_self
  have hemitter {e : UInt8} (he : ix.accounts[2]? = some e) :
      t.transaction.message.staticAccountKeys[e.toNat]? = t.keys[e.toNat]? :=
    h.key (by simp [readKeys, he])
  have hpayer {e : UInt8} (he : ix.accounts[4]? = some e) :
      t.transaction.message.staticAccountKeys[e.toNat]? = t.keys[e.toNat]? :=
    h.key (by simp [readKeys, he])
  unfold recognized posted parseInstruction
  rw [hprogram]
  cases he : ix.accounts[2]? with
  | none => rfl
  | some e =>
    cases hp : ix.accounts[4]? with
    | none => simp only [hemitter he]
    | some p => simp only [hemitter he, List.getD_eq_getElem?_getD, hpayer hp]

theorem recognized_of_not_posted (h : posted config t ix = none) :
    recognized config t ix = none := by
  by_contra hsome
  obtain ⟨m, hm⟩ := Option.ne_none_iff_exists'.mp hsome
  obtain ⟨hprogram, hdata, e, emitter, he, hemitter, -⟩ := parseInstruction_iff.mp hm
  have hposted : posted config t ix = some _ := parseInstruction_iff.mpr
    ⟨ChainTransaction.static_key hprogram, hdata, e, emitter, he,
      ChainTransaction.static_key hemitter, rfl⟩
  rw [h] at hposted
  cases hposted

theorem Ordinary.recognized_eq (h : Ordinary cx config t) (ok : t.err = none)
    (hix : ix ∈ t.inner.flatten) : recognized config t ix = posted config t ix := by
  by_cases hposted : posted config t ix = none
  · rw [hposted, recognized_of_not_posted hposted]
  · exact recognized_eq_posted (h.static ok ix hix hposted)

theorem verifySignatures_signed {signature : Signature} {tx : VersionedTransaction} {is : List ℕ}
    (h : ∀ i ∈ is, ∃ sig pubkey, tx.signatures[i]? = some sig ∧
      tx.message.staticAccountKeys[i]? = some pubkey ∧
      cx.verify sig pubkey (cx.serialize tx.message) = true) :
    verifySignatures cx signature tx is = .ok true := by
  induction is with
  | nil => rfl
  | cons i is ih =>
    obtain ⟨sig, pubkey, hsig, hkey, hv⟩ := h i List.mem_cons_self
    simp [verifySignatures, hsig, hkey, hv, ih fun j hj => h j (List.mem_cons_of_mem _ hj)]

theorem findSome_reported {β : Type} {f : CompiledInstruction → Option β}
    {r : EncodedConfirmedTransaction} (h : Reports cx t r) :
    (r.inner.findSome? fun ixs => ixs.findSome? fun ix => (decodeInstruction cx ix).bind f) =
      t.inner.flatten.findSome? f := by
  have hdecoded : (r.inner.map (·.map (decodeInstruction cx))).findSome?
      (·.findSome? (Option.bind · f)) =
      r.inner.findSome? fun ixs => ixs.findSome? fun ix => (decodeInstruction cx ix).bind f := by
    simp only [List.findSome?_map, Function.comp_def]
  have hsome : (fun ixs : List CompiledInstruction =>
      (ixs.map some).findSome? (Option.bind · f)) = fun ixs => (ixs.filterMap f).head? := by
    funext ixs
    simp [List.findSome?_map, Function.comp_def]
  rw [← hdecoded, h.inner, List.findSome?_map, Function.comp_def, hsome, ← List.head?_flatMap,
    List.flatMap, ← List.filterMap_flatten, List.flatten_filter_ne_nil, List.head?_filterMap]

theorem Ordinary.reads (h : Ordinary cx config t) :
    Reads cx (config.monitor cx) (events config) t := by
  intro rpc r hr hreports
  have hverified : verifySignatures cx t.signature t.transaction
      (List.range t.transaction.message.numRequiredSignatures.toNat) = .ok true :=
    verifySignatures_signed fun i hi => h.signed i (List.mem_range.mp hi)
  have hparse : parseTransactionStatic cx config rpc t.signature =
      .ok (t.inner.flatten.findSome? (recognized config t)) := by
    rw [← findSome_reported hreports, recognized, ← hreports.slot, ← hreports.blockTime]
    exact bind_ok.mpr ⟨r, hr, bind_ok.mpr ⟨_, hreports.transaction,
      bind_ok.mpr ⟨_, hverified, rfl⟩⟩⟩
  refine ⟨_, bind_ok.mpr ⟨_, hparse, rfl⟩, ?_⟩
  unfold events
  split
  · next ok =>
    have hsame : t.inner.flatten.filterMap (recognized config t) =
        t.inner.flatten.filterMap (posted config t) :=
      List.filterMap_congr fun ix hix => h.recognized_eq ok hix
    rw [Option.toList_filter, toList_findSome (hsame ▸ h.single ok), hsame,
      ChainTransaction.executed_inner ok (h.below ok)]
  · next ok =>
    rw [List.findSome?_eq_none_iff.mpr (h.failed ok)]
    rfl

theorem events_listed (h : config.noopShimProgramId ∉ t.keys) : events config t = [] := by
  have hnone : ∀ ix, posted config t ix = none := by
    intro ix
    apply if_pos
    intro hkey
    exact h (List.mem_of_getElem? hkey)
  have hfound : t.executed.filterMap (posted config t) = [] :=
    List.filterMap_eq_nil_iff.mpr fun ix _ => hnone ix
  simp [events, hfound]

end Matching

end NoopShimMonitor
