import PsyDogeBridge.MessageCodec
import PsyDogeBridge.MonitorDelivery
import PsyDogeBridge.ProgramCalls

/-! Do the messages that the noop-shim monitor returns come from the bridge? -/
namespace AuthenticMessages

open PodLayout CheckedSteps SolanaRuntime BridgeData BridgeCalls BridgeProcessor
  AcceptedInstructions BridgeSystem InstructionCodec LocalCluster SignedCalls CallTrace ProgramCalls
  ClientRpc NoopShimMonitor MessageCodec MonitorRuns MonitorDelivery

variable {env : BridgeEnv} {cx : Codecs} {config : NoopShimMonitorConfig}
  {chain : List ChainTransaction} {t : ChainTransaction} {tr : List Call}
  {m : NoopShimWithdrawalMessage}

section Output

/-- The messages that the monitor returns or sends, when every node it asks is honest. -/
inductive Emitted (cx : Codecs) (config : NoopShimMonitorConfig) (chain : List ChainTransaction)
    (m : NoopShimWithdrawalMessage) : Prop where
  | page {rpc before limit p} (honest : ReportsChain cx chain rpc)
      (returned : getWithdrawals cx config rpc before limit = .ok p) (found : m ∈ p.messages)
  | since {rpcs afterSignature limit ms} (honest : ∀ rpc ∈ rpcs, ReportsChain cx chain rpc)
      (returned : fetchSince cx config rpcs afterSignature limit = .ok (some ms)) (found : m ∈ ms)
  | sent {rpc send afterSignature} (honest : ReportsChain cx chain rpc)
      (found : m ∈ (pollOnce cx rpc send config afterSignature).sent)

def ReadFrom (cx : Codecs) (config : NoopShimMonitorConfig) (chain : List ChainTransaction)
    (m : NoopShimWithdrawalMessage) : Prop :=
  ∃ rpc sig, ReportsChain cx chain rpc ∧
    parseTransactionStatic cx config rpc sig = .ok (some m) ∧ m.emitter = config.bridgeStatePda

variable {rpc : Rpc} {names : List String} {ms : List NoopShimWithdrawalMessage}

theorem filtered_read {sig : Signature} (honest : ReportsChain cx chain rpc)
    (h : (config.monitor cx).parse rpc sig = .ok (some m)) : ReadFrom cx config chain m := by
  obtain ⟨o, ho, hfilter⟩ := bind_ok.mp h
  obtain ⟨rfl, hm⟩ := Option.filter_eq_some_iff.mp (Except.ok.inj hfilter)
  exact ⟨rpc, sig, honest, ho, of_decide_eq_true hm⟩

theorem fetchMessage_read {name : String} (honest : ReportsChain cx chain rpc)
    (h : fetchMessage cx config rpc name = .ok (some m)) : ReadFrom cx config chain m := by
  unfold fetchMessage at h
  split at h
  · cases h
  · exact filtered_read honest h

theorem fetchMessages_read (honest : ReportsChain cx chain rpc)
    (h : fetchMessages cx config rpc names = .ok ms) :
    ∀ m ∈ ms, ReadFrom cx config chain m := by
  induction names generalizing ms with
  | nil =>
    cases h
    nofun
  | cons name names ih =>
    obtain ⟨message, hmessage, h⟩ := bind_ok.mp h
    obtain ⟨messages, hmessages, h⟩ := bind_ok.mp h
    cases h
    intro m hm
    rcases List.mem_append.mp hm with hm | hm
    · rw [Option.mem_toList] at hm
      cases hm
      exact fetchMessage_read honest hmessage
    · exact ih hmessages m hm

theorem fetchPages_read {afterSignature before : Option Signature} {limit : ℕ} {rpcs : List Rpc}
    {old : List NoopShimWithdrawalMessage} (honest : ∀ rpc ∈ rpcs, ReportsChain cx chain rpc)
    (hold : ∀ m ∈ old, ReadFrom cx config chain m)
    (h : fetchPages cx config afterSignature limit rpcs before old = .ok (some ms)) :
    ∀ m ∈ ms, ReadFrom cx config chain m := by
  induction rpcs generalizing before old with
  | nil =>
    unfold fetchPages at h
    split at h
    · cases h
      exact hold
    · cases h
  | cons rpc rpcs ih =>
    unfold fetchPages at h
    split at h
    · cases h
      exact hold
    · obtain ⟨names, -, h⟩ := bind_ok.mp h
      split at h
      · cases h
        exact hold
      · obtain ⟨found, hfound, h⟩ := bind_ok.mp h
        refine ih (fun r hr => honest r (List.mem_cons_of_mem _ hr)) ?_ h
        intro m hm
        rcases List.mem_append.mp hm with hm | hm
        · exact hold m hm
        · exact fetchMessages_read (honest rpc List.mem_cons_self) hfound m hm

theorem deliver_read {send : NoopShimWithdrawalMessage → Bool} (honest : ReportsChain cx chain rpc)
    (hm : m ∈ (deliver cx ((config.monitor cx).parse rpc) send names).1) :
    ReadFrom cx config chain m := by
  induction names with
  | nil => cases hm
  | cons name names ih =>
    unfold deliver at hm
    split at hm
    · exact ih hm
    · next sig _ =>
      split at hm
      · cases hm
      · exact ih hm
      · next event hevent =>
        split at hm
        · rcases List.mem_cons.mp hm with rfl | hm
          · exact filtered_read honest hevent
          · exact ih hm
        · cases hm

theorem Emitted.read (h : Emitted cx config chain m) : ReadFrom cx config chain m := by
  cases h with
  | page honest returned found =>
    obtain ⟨names, -, h⟩ := bind_ok.mp returned
    obtain ⟨messages, hmessages, h⟩ := bind_ok.mp h
    cases h
    exact fetchMessages_read honest hmessages m found
  | since honest returned found =>
    obtain ⟨o, ho, h⟩ := bind_ok.mp returned
    cases o with
    | none => cases h
    | some ms =>
      cases h
      exact fetchPages_read honest (List.forall_mem_nil _) ho m (List.mem_reverse.mp found)
  | @sent rpc send afterSignature honest found =>
    unfold pollOnce Monitor.pollOnce at found
    split at found
    · cases found
    · cases found
    · exact deliver_read honest found

end Output

section Reading

variable {slot : UInt64} {keys : List Pubkey} {ix : CompiledInstruction} {blockTime : Option ℤ}
  {signature : Signature}

theorem parseInstruction_some
    (h : NoopShimMonitor.parseInstruction config signature slot blockTime keys ix = some m) :
    keys[ix.programIdIndex.toNat]? = some config.noopShimProgramId ∧
      (∃ e, ix.accounts[2]? = some e ∧ keys[e.toNat]? = some m.emitter) ∧
      m.nonce = Pod.u32.decode (slice ix.data 8 4) ∧
      m.sighash = hashPod.decode ((payloadOf ix.data).take 32) ∧
      m.dogeTxBytes = (payloadOf ix.data).drop 32 ∧
      m.signature = signature := by
  obtain ⟨hprogram, -, e, emitter, he, hemitter, rfl⟩ := parseInstruction_iff.mp h
  exact ⟨hprogram, ⟨e, he, hemitter⟩, rfl, rfl, rfl, rfl⟩

theorem parsed_messageData {n : UInt32} {sighash tx : Bytes}
    (h : NoopShimMonitor.parseInstruction config signature slot blockTime keys ix = some m)
    (hdata : ix.data = messageData n 1 sighash tx) (hsighash : sighash.length = 32)
    (htx : sighash.length + tx.length < 2 ^ 32) :
    m.nonce = n ∧ m.sighash.toList = sighash ∧ m.dogeTxBytes = tx := by
  obtain ⟨-, -, hn, hs, ht, -⟩ := parseInstruction_some h
  rw [hdata, messageData_nonce, Pod.decode_encode] at hn
  rw [hdata, messageData_payload htx] at hs ht
  refine ⟨hn, ?_, ?_⟩
  · rw [hs, List.take_left' hsighash, ← Pod.bytes_encode]
    exact hashPod.encode_decode _ hsighash
  · rw [ht, List.drop_left' hsighash]

end Reading

section Transactions

structure Compiles (keys : List Pubkey) (f : Frame) (ix : CompiledInstruction) : Prop where
  program : keys[ix.programIdIndex.toNat]? = some f.programId
  accounts : ix.accounts.map (fun i => keys[i.toNat]?) = f.accounts.map fun a => some a.key
  data : ix.data = f.data

/-- How a transaction of the chain was executed. Its signers have signed it, the calls that it
records are those that were made, and if it succeeded all of them did. -/
structure Performed (env : BridgeEnv) (cx : Codecs) (t : ChainTransaction) (tr : List Call) :
    Prop where
  recorded : List.Forall₂ (Compiles t.keys) (tr.map Call.frame) t.executed
  dispatched : Dispatched env.platform tr
  signers : ∀ c ∈ tr, c.caller = none → ∀ k, c.frame.signs k →
    ∃ i < t.transaction.message.numRequiredSignatures.toNat,
      t.transaction.message.staticAccountKeys[i]? = some k
  signed : Signed cx t.transaction
  succeeded : t.err = none → Succeeded env tr

/-- The message is that of a withdrawal or a replay which the bridge accepted in a transaction
that succeeded, and the noop shim accepted the call. -/
inductive Authentic (env : BridgeEnv) (t : ChainTransaction) (tr : List Call)
    (m : NoopShimWithdrawalMessage) : Prop where
  | intro {i j : ℕ} {post bridge : Call} {ix : BridgeInstruction} {inv : Invocation} {l' : Ledger}
      {es : List Effect} {n : UInt32} {shim : ShimAccounts} {emitter : AccountInfo}
      {sighash tx : Bytes}
      (succeeded : t.err = none)
      (called : tr[i]? = some post) (caller : post.caller = some j) (origin : tr[j]? = some bridge)
      (program : bridge.frame.programId = DOGE_BRIDGE_PROGRAM_ID) (ran : bridge.frame.runsAs inv)
      (decoded : unpack bridge.frame.data = .ok ix) (posts : postsMessage ix)
      (accepted : Accepted env inv bridge.before ix l' es)
      (effect : .call (vaaCall env inv n shim emitter sighash tx) ∈ es)
      (frame : post.frame = .ofCpi (vaaCall env inv n shim emitter sighash tx))
      (shimProgram : post.frame.programId = NOOP_SHIM_PROGRAM_ID)
      (received : noopShim env.platform post.frame.accounts = .ok ())
      (sameNonce : m.nonce = n) (sameSighash : m.sighash.toList = sighash)
      (sameTx : m.dogeTxBytes = tx)

variable {ix : CompiledInstruction} {k : Pubkey}

theorem mem_executed (ok : t.err = none) (h : ix ∈ t.inner.flatten) : ix ∈ t.executed := by
  have hlen := t.ran ok
  obtain ⟨ixs, hixs, hix⟩ := List.mem_flatten.mp h
  obtain ⟨n, hn, rfl⟩ := List.getElem_of_mem hixs
  have hn' : n < t.transaction.message.instructions.length := by omega
  refine List.mem_flatten.mpr ⟨t.transaction.message.instructions[n] :: t.inner[n], ?_,
    List.mem_cons_of_mem _ hix⟩
  exact List.mem_iff_getElem.mpr ⟨n, by simp; omega, List.getElem_zipWith ..⟩

theorem Performed.call (h : Performed env cx t tr) (hix : ix ∈ t.executed) :
    ∃ (i : ℕ) (c : Call), tr[i]? = some c ∧ Compiles t.keys c.frame ix := by
  obtain ⟨i, hi, rfl⟩ := List.getElem_of_mem hix
  have hlen := h.recorded.length_eq
  rw [List.length_map] at hlen
  refine ⟨i, _, List.getElem?_eq_getElem (by omega), ?_⟩
  have hget := (List.forall₂_iff_get.mp h.recorded).2 i (by simp; omega) hi
  simpa using hget

theorem Compiles.account {f : Frame} (h : Compiles t.keys f ix) {n : ℕ} {e : UInt8}
    (he : ix.accounts[n]? = some e) (hk : t.keys[e.toNat]? = some k) :
    ∃ a, f.accounts[n]? = some a ∧ a.key = k := by
  have hmap := congrArg (·[n]?) h.accounts
  simp only [List.getElem?_map, he, Option.map_some, hk] at hmap
  obtain ⟨a, ha, hkey⟩ := Option.map_eq_some_iff.mp hmap.symm
  exact ⟨a, ha, Option.some.inj hkey⟩

/-- The noop shim accepts a call only if its third account signs. -/
theorem noopShim_emitter {p : Platform} {accounts : List AccountInfo} {a : AccountInfo}
    (h : noopShim p accounts = .ok ()) (ha : accounts[2]? = some a) : a.isSigner = true := by
  simp only [noopShim, bind_ok, nextAccountInfo_ok, ensure_ok, exists_const, Prod.exists] at h
  obtain ⟨_, _, rfl, _, _, rfl, emitter, _, rfl, _, _, rfl, _, _, rfl, hsigner, -⟩ := h
  cases ha
  exact hsigner

/-- No key pair signs for the bridge's address, and no other program of the transaction derives
it. -/
structure Derived (env : BridgeEnv) (cx : Codecs) (tr : List Call) : Prop where
  offCurve : ∀ sig message,
    cx.verify sig (env.bridgePda DOGE_BRIDGE_PROGRAM_ID) message = false
  derived : ∀ (i : ℕ) (c : Call) (j : ℕ) (d : Call), tr[i]? = some c → c.caller = some j →
    tr[j]? = some d → ∀ s ∈ c.seeds, env.platform.createProgramAddress s d.frame.programId =
      some (env.bridgePda DOGE_BRIDGE_PROGRAM_ID) → d.frame.programId = DOGE_BRIDGE_PROGRAM_ID

theorem Performed.ownedBy (h : Performed env cx t tr) (hd : Derived env cx tr) :
    OwnedBy env.platform tr (env.bridgePda DOGE_BRIDGE_PROGRAM_ID) DOGE_BRIDGE_PROGRAM_ID := by
  refine ⟨?_, hd.derived⟩
  intro c hc hnone hsigns
  obtain ⟨i, hi, hkey⟩ := h.signers c hc hnone _ hsigns
  obtain ⟨sig, pubkey, -, hpubkey, hverify⟩ := h.signed i hi
  rw [hkey] at hpubkey
  cases hpubkey
  rw [hd.offCurve] at hverify
  cases hverify

theorem ReadFrom.recognized (h : ReadFrom cx config chain m) :
    ∃ t ∈ chain, t.signature = m.signature ∧ m.emitter = config.bridgeStatePda ∧
      ∃ ix ∈ t.inner.flatten, recognized config t ix = some m := by
  obtain ⟨rpc, sig, honest, hparse, hemitter⟩ := h
  obtain ⟨r, hr, hparse⟩ := bind_ok.mp hparse
  obtain ⟨t, ht, rfl, hreports⟩ := honest sig r hr
  obtain ⟨o, ho, hparse⟩ := bind_ok.mp hparse
  rw [hreports.transaction] at ho
  cases ho
  obtain ⟨verified, -, hparse⟩ := bind_ok.mp hparse
  split at hparse
  · have hfound := Except.ok.inj hparse
    rw [findSome_reported hreports, hreports.slot, hreports.blockTime] at hfound
    obtain ⟨ix, hix, hm⟩ := List.exists_of_findSome?_eq_some hfound
    exact ⟨t, ht, (parseInstruction_some hm).2.2.2.2.2.symm, hemitter, ix, hix, hm⟩
  · cases hparse

/-- In a transaction that succeeded the bridge has posted the message, if it posts messages only
to the noop shim. -/
theorem authentic_of_succeeded (h : Performed env cx t tr) (hd : Derived env cx tr)
    (hprogram : config.noopShimProgramId = NOOP_SHIM_PROGRAM_ID)
    (hpda : config.bridgeStatePda = env.bridgePda DOGE_BRIDGE_PROGRAM_ID)
    (hshim : ∀ c ∈ tr, c.frame.programId = DOGE_BRIDGE_PROGRAM_ID → NamesNoopShim c.frame)
    (ok : t.err = none) (hix : ix ∈ t.inner.flatten) (hm : recognized config t ix = some m)
    (hemitter : m.emitter = config.bridgeStatePda) :
    Authentic env t tr m := by
  have hsucceeded := h.succeeded ok
  obtain ⟨i, post, hpost, hcompiles⟩ := h.call (mem_executed ok hix)
  obtain ⟨hkey, ⟨e, he, hek⟩, -⟩ := parseInstruction_some hm
  have hp : post.frame.programId = NOOP_SHIM_PROGRAM_ID := by
    have hstatic := ChainTransaction.static_key hkey
    rw [hcompiles.program, hprogram] at hstatic
    exact Option.some.inj hstatic
  obtain ⟨a, ha, hak⟩ := hcompiles.account he (ChainTransaction.static_key hek)
  obtain ⟨hreceived, -⟩ := (hsucceeded.ran i post hpost).shim hp
  have hsigns : post.frame.signs (env.bridgePda DOGE_BRIDGE_PROGRAM_ID) :=
    ⟨a, List.mem_of_getElem? ha, by rw [hak, hemitter, hpda], noopShim_emitter hreceived ha⟩
  obtain ⟨j, bridge, hj, hbridge, hdoge, iX, inv, l', es, hiX, hposts, hinv, hacc, eff, heff,
    hframe⟩ := signed_shim_call hsucceeded (h.ownedBy hd) hshim hpost hp hsigns
  obtain ⟨n, shim, emitter, sighash, tx, k, l₁, -, hsighash, htx, hposted⟩ :=
    Accepted.message hacc hposts
  have hcall := posted_effects hposted eff heff
  subst hcall
  have hbound := hsucceeded.bounded bridge (List.mem_of_getElem? hbridge) k
  have hsmall : sighash.length + tx.length < 2 ^ 32 := by
    unfold MAX_PERMITTED_DATA_LENGTH at hbound
    omega
  have hdata : ix.data = messageData n 1 sighash tx := by
    rw [hcompiles.data, hframe]
    rfl
  obtain ⟨hn, hs, ht⟩ := parsed_messageData hm hdata hsighash hsmall
  exact .intro ok hpost hj hbridge hdoge hinv hiX hposts hacc heff hframe hp hreceived hn hs ht

/-- Every message that the monitor returns or sends stands in a transaction of the chain. If the
bridge posts its messages there only to the noop shim, then the message is one of them exactly if
the transaction succeeded. -/
theorem emitted_authentic_iff (trace : ChainTransaction → List Call)
    (hprogram : config.noopShimProgramId = NOOP_SHIM_PROGRAM_ID)
    (hpda : config.bridgeStatePda = env.bridgePda DOGE_BRIDGE_PROGRAM_ID)
    (performed : ∀ t ∈ chain, Performed env cx t (trace t))
    (derived : ∀ t ∈ chain, Derived env cx (trace t)) (emitted : Emitted cx config chain m) :
    ∃ t ∈ chain, t.signature = m.signature ∧
      ((∀ c ∈ trace t, c.frame.programId = DOGE_BRIDGE_PROGRAM_ID → NamesNoopShim c.frame) →
        (Authentic env t (trace t) m ↔ t.err = none)) := by
  obtain ⟨t, ht, hsig, hemitter, ix, hix, hm⟩ := emitted.read.recognized
  refine ⟨t, ht, hsig, ?_⟩
  intro hshim
  constructor
  · rintro ⟨ok, -⟩
    exact ok
  · intro ok
    exact authentic_of_succeeded (performed t ht) (derived t ht) hprogram hpda hshim ok hix hm
      hemitter

end Transactions

/-- A stranger's program calls the shim without a signature of the bridge, and the shim refuses
the call. -/
def forgedTransaction : ChainTransaction where
  signature := Vector.replicate 64 3
  slot := 9
  blockTime := none
  transaction := ⟨[Vector.replicate 64 3], 1, [operatorKey, bridgeState, strangerKey,
    NOOP_SHIM_PROGRAM_ID], [⟨2, [0, 1, 3], []⟩], []⟩
  loadedKeys := []
  err := some "InstructionError(0, MissingRequiredSignature)"
  inner := [[⟨3, [0, 0, 1, 0, 0], sampleData⟩]]
  ran h := nomatch h

def forgedTrace : List Call :=
  [⟨⟨strangerKey, [⟨operatorKey, true, true⟩, ⟨bridgeState, false, false⟩,
      ⟨NOOP_SHIM_PROGRAM_ID, false, false⟩], []⟩, none, [], emptyLedger⟩,
    ⟨⟨NOOP_SHIM_PROGRAM_ID, [⟨operatorKey, false, true⟩, ⟨operatorKey, false, true⟩,
      ⟨bridgeState, false, false⟩, ⟨operatorKey, false, true⟩, ⟨operatorKey, true, true⟩],
      sampleData⟩, some 0, [], emptyLedger⟩]

def forgedCodecs : Codecs := codecs forgedTransaction sampleData

def forgedMessage : NoopShimWithdrawalMessage :=
  { withdrawalMessage with signature := Vector.replicate 64 3, slot := 9 }

theorem forged_sent :
    forgedMessage ∈ (pollOnce forgedCodecs (node forgedTransaction true) (fun _ => true)
      shimConfig none).sent := by decide

theorem forged_performed : Performed cluster forgedCodecs forgedTransaction forgedTrace where
  recorded := .cons ⟨rfl, rfl, rfl⟩ (.cons ⟨rfl, rfl, rfl⟩ .nil)
  dispatched := by
    refine Linked.dispatched rfl ⟨rfl, ?_, trivial⟩
    rintro k ⟨a, ha, rfl, hsigner⟩
    left
    simp only [List.mem_cons, List.not_mem_nil, or_false] at ha
    rcases ha with rfl | rfl | rfl | rfl | rfl
    case inr.inr.inr.inr => exact ⟨_, List.mem_cons_self, rfl, rfl⟩
    all_goals cases hsigner
  signers := by
    intro c hc hnone k hk
    simp only [forgedTrace, List.mem_cons, List.not_mem_nil, or_false] at hc
    rcases hc with rfl | rfl
    · obtain ⟨a, ha, rfl, hsigner⟩ := hk
      simp only [List.mem_cons, List.not_mem_nil, or_false] at ha
      rcases ha with rfl | rfl | rfl
      · exact ⟨0, by decide, rfl⟩
      all_goals cases hsigner
    · cases hnone
  signed := by
    intro i hi
    have h0 : i = 0 := Nat.lt_one_iff.mp hi
    subst h0
    exact ⟨_, _, rfl, rfl, by decide⟩
  succeeded h := nomatch h

theorem cluster_derived {data : Bytes} (hsigners : (t.transaction.message.staticAccountKeys.take
      t.transaction.message.numRequiredSignatures.toNat).any (fun k => k = bridgeState) = false)
    (hcallers : ∀ c ∈ tr, c.seeds = [] ∨ ∀ (j : ℕ) (d : Call), c.caller = some j →
      tr[j]? = some d → d.frame.programId = DOGE_BRIDGE_PROGRAM_ID) :
    Derived cluster (codecs t data) tr := by
  constructor
  · intro sig message
    rw [show cluster.bridgePda DOGE_BRIDGE_PROGRAM_ID = bridgeState from cluster_pda]
    exact hsigners
  · intro i c j d hc hj hd s hs _
    rcases hcallers c (List.mem_of_getElem? hc) with hseeds | hcaller
    · rw [hseeds] at hs
      cases hs
    · exact hcaller j d hj hd

/-- The monitor sends a message of a transaction that failed: the shim refused the call, and the
bridge was not called at all. -/
theorem forged_message_sent :
    Emitted forgedCodecs shimConfig [forgedTransaction] forgedMessage ∧
      Performed cluster forgedCodecs forgedTransaction forgedTrace ∧
      Derived cluster forgedCodecs forgedTrace ∧
      (∀ c ∈ forgedTrace, c.frame.programId ≠ DOGE_BRIDGE_PROGRAM_ID) ∧
      (∀ c ∈ forgedTrace, c.frame.programId = NOOP_SHIM_PROGRAM_ID →
        noopShim cluster.platform c.frame.accounts = .error (.program .missingRequiredSignature)) ∧
      ¬ Authentic cluster forgedTransaction forgedTrace forgedMessage := by
  have hnone : ∀ c ∈ forgedTrace, c.frame.programId ≠ DOGE_BRIDGE_PROGRAM_ID := by decide
  refine ⟨.sent (node_reports (by decide)) forged_sent, forged_performed,
    cluster_derived (by decide) (by simp [forgedTrace]), hnone, ?_, ?_⟩
  · intro c hc hp
    simp only [forgedTrace, List.mem_cons, List.not_mem_nil, or_false] at hc
    rcases hc with rfl | rfl
    · exact absurd hp (by decide)
    · rfl
  · rintro ⟨ok, -⟩
    cases ok

def announcedTransaction : ChainTransaction where
  signature := Vector.replicate 64 4
  slot := 10
  blockTime := none
  transaction := ⟨[Vector.replicate 64 4], 1, [operatorKey, bridgeState, txBuffer,
    DOGE_BRIDGE_PROGRAM_ID, NOOP_SHIM_PROGRAM_ID],
    [⟨3, [1, 2, 4, 0, 0, 0, 0, 0, 0, 0, 0, 0],
      instructionData (.processWithdrawal (withdrawalData cluster [1, 2, 3]))⟩], []⟩
  loadedKeys := []
  err := none
  inner := [[⟨4, [0, 0, 1, 0, 0, 0, 0, 0, 0, 0], announced.data⟩]]
  ran _ := rfl

def announcedMessage : NoopShimWithdrawalMessage where
  signature := Vector.replicate 64 4
  slot := 10
  blockTime := none
  nonce := 1
  consistencyLevel := 1
  sighash := crypto.sha256 [1, 2, 3]
  dogeTxBytes := [1, 2, 3]
  emitter := bridgeState
  payer := operatorKey

def announcedCodecs : Codecs := codecs announcedTransaction announced.data

theorem announced_sent :
    announcedMessage ∈ (pollOnce announcedCodecs (node announcedTransaction true) (fun _ => true)
      shimConfig none).sent := by decide

theorem withdrawal_keys (h : BridgeEnv.pda env = bridgeState) :
    [(1 : UInt8), 2, 4, 0, 0, 0, 0, 0, 0, 0, 0, 0].map
        (fun i => announcedTransaction.keys[i.toNat]?) =
      (withdrawalInvocation env NOOP_SHIM_PROGRAM_ID operatorKey txBuffer).accounts.map
        fun a => some a.key := by
  change _ = some (BridgeEnv.pda env) :: _
  rw [h]
  rfl

theorem message_keys (h : BridgeEnv.pda env = bridgeState) :
    [(0 : UInt8), 0, 1, 0, 0, 0, 0, 0, 0, 0].map
        (fun i => announcedTransaction.keys[i.toNat]?) =
      (shimMetas env operatorKey).map fun a => some a.key := by
  change _ = some operatorKey :: some operatorKey :: some (BridgeEnv.pda env) :: _
  rw [h]
  rfl

theorem announced_performed :
    Performed cluster announcedCodecs announcedTransaction [withdrawalCall, messageCall] where
  recorded := by
    refine .cons ⟨rfl, withdrawal_keys cluster_pda, rfl⟩ (.cons ⟨rfl, ?_, rfl⟩ .nil)
    exact (message_keys cluster_pda).trans (congrArg _ announced_accounts.symm)
  dispatched := announced_linked.dispatched rfl
  signers := by
    intro c hc hnone k hk
    simp only [List.mem_cons, List.not_mem_nil, or_false] at hc
    rcases hc with rfl | rfl
    · obtain ⟨a, ha, rfl, hsigner⟩ := hk
      rw [withdrawalInvocation_signer ha hsigner]
      exact ⟨0, by decide, rfl⟩
    · cases hnone
  signed := by
    intro i hi
    have h0 : i = 0 := Nat.lt_one_iff.mp hi
    subst h0
    exact ⟨_, _, rfl, rfl, by decide⟩
  succeeded _ := announced_succeeded

/-- The message of the withdrawal is authentic. -/
theorem announced_message_authentic :
    Emitted announcedCodecs shimConfig [announcedTransaction] announcedMessage ∧
      Authentic cluster announcedTransaction [withdrawalCall, messageCall] announcedMessage := by
  have hemitted : Emitted announcedCodecs shimConfig [announcedTransaction] announcedMessage :=
    .sent (node_reports (by decide +kernel)) announced_sent
  have hderived : Derived cluster announcedCodecs [withdrawalCall, messageCall] := by
    refine cluster_derived (by decide) (List.forall_mem_cons.mpr ⟨.inl rfl,
      List.forall_mem_singleton.mpr (.inr ?_)⟩)
    intro j d hj hd
    cases hj
    cases hd
    rfl
  have hshim : ∀ c ∈ [withdrawalCall, messageCall], c.frame.programId = DOGE_BRIDGE_PROGRAM_ID →
      NamesNoopShim c.frame := by
    refine List.forall_mem_cons.mpr ⟨fun _ _ _ _ => ⟨_, rfl, rfl⟩,
      List.forall_mem_singleton.mpr ?_⟩
    intro h
    exact absurd h (by decide)
  obtain ⟨t, ht, -, h⟩ := emitted_authentic_iff (fun _ => [withdrawalCall, messageCall]) rfl
    cluster_pda.symm (List.forall_mem_singleton.mpr announced_performed)
    (List.forall_mem_singleton.mpr hderived) hemitted
  cases List.mem_singleton.mp ht
  exact ⟨hemitted, (h hshim).mpr rfl⟩

end AuthenticMessages
