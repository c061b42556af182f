import PsyDogeBridge.AppendHistory
import PsyDogeBridge.SignedCalls

/-! The tree of the transactions that the bridge sent, over whole runs, and what can be replayed
from it. -/
namespace SentTransactions

open PodLayout CheckedSteps SolanaRuntime BridgeData AppendTree ProgramState BridgeCalls
  BridgeProcessor AcceptedInstructions BridgeSystem LocalCluster StateHistory StateRuns MerkleTree
  AppendHistory

variable {env : BridgeEnv} {inv : Invocation} {l l' : Ledger} {e : Event} {es : List Event}
  {st st' : BridgeState} {c : Crypto}

section Proofs

def checkedPairs (c : Crypto) (xs : List QHash256)
    (proof : FixedMerkleAppendTreePartialMerkleProof) : Set (QHash256 × QHash256) :=
  nodePairs (hashTwoToOne c) (leaves (zeroHash 0) xs) TREE_HEIGHT ∪
    climbPairs (hashTwoToOne c) proof.value proof.index.toNat proof.siblings.toList

variable {xs : List QHash256} {t : FixedMerkleAppendTree}

theorem Represents.proof_leaf {proof : FixedMerkleAppendTreePartialMerkleProof}
    (h : Represents c t xs)
    (hinj : Set.InjOn (fun q : QHash256 × QHash256 => hashTwoToOne c q.1 q.2)
      (checkedPairs c xs proof)) (hroot : proof.computeRootSha256 c = some t.getRoot) :
    proof.index.toNat < 2 ^ 32 ∧ proof.value = leaves (zeroHash 0) xs proof.index.toNat := by
  obtain ⟨hlt, hclimb⟩ := computeMerkleRoot_some.mp hroot
  rw [Vector.length_toList] at hlt
  refine ⟨hlt, ?_⟩
  refine (climb_unique (d := 0) hinj ?_ hlt (hclimb.trans h.root)).1
  rw [Vector.length_toList, zero_add]

def truePath (c : Crypto) (xs : List QHash256) (p : ℕ) :
    FixedMerkleAppendTreePartialMerkleProof where
  index := UInt64.ofNat p
  value := leaves (zeroHash 0) xs p
  siblings := Vector.ofFn fun i => sibling (hashTwoToOne c) (leaves (zeroHash 0) xs) p i

theorem truePath_siblings (xs : List QHash256) (p : ℕ) : (truePath c xs p).siblings.toList =
    path (hashTwoToOne c) (leaves (zeroHash 0) xs) p TREE_HEIGHT := by
  rw [truePath, Vector.toList_ofFn, path, List.ofFn_eq_map, ← List.map_coe_finRange_eq_range,
    List.map_map]
  rfl

theorem Represents.truePath_root {p : ℕ} (h : Represents c t xs) (hp : p < 2 ^ 32) :
    (truePath c xs p).computeRootSha256 c = some t.getRoot := by
  have hindex : (truePath c xs p).index.toNat = p := by
    change (UInt64.ofNat p).toNat = p
    rw [UInt64.toNat_ofNat']
    omega
  have htop : p / 2 ^ TREE_HEIGHT = 0 := Nat.div_eq_of_lt hp
  refine computeMerkleRoot_some.mpr ⟨?_, ?_⟩
  · rw [Vector.length_toList, hindex]
    exact hp
  · rw [truePath_siblings, hindex]
    change climb _ (leaves (zeroHash 0) xs p) p _ = t.currentRoot
    rw [climb_path, htop, h.root, treeRoot]

end Proofs

section History

def sentSighash : BridgeCall → Option QHash256
  | { ix := .processWithdrawal params, .. } => some params.newReturnOutput.sighash
  | _ => none

def sent (cs : List BridgeCall) : List QHash256 := cs.filterMap sentSighash

variable {call : BridgeCall}

theorem Update.sent (h : Update env st call.ix st') (hinit : notInit call) :
    st'.coreState.sentTransactionsTree = ((sentSighash call).toList).foldl
      (FixedMerkleAppendTree.append env.crypto) st.coreState.sentTransactionsTree := by
  obtain ⟨inv, ix, effects, l, l'⟩ := call
  cases h with
  | initializeBridge params => exact absurd rfl (hinit params)
  | processWithdrawal => rfl
  | _ => rfl

theorem sent_represented {params : InitializeBridgeInstructionData} {l₀ l₁ l₂ : Ledger}
    (hg : Guarded env.platform) (table : TableConsistent env.crypto)
    (init : Step env l₀ (.bridge call) l₁) (isInit : call.ix = .initializeBridge params)
    (first : (l₀ (BridgeEnv.pda env)).data = []) (r : Run (Step env) l₁ es l₂)
    (once : ∀ e ∈ es, ¬ isInitialize e) (few : (sent (calls env es)).length < 2 ^ 32) :
    ∃ st, Holds env l₂ st ∧
      Run (CallStep env) ⟨PsyBridgeProgramState.initialized params, params.dogeMint⟩
        (calls env es) st ∧
      Represents env.crypto st.coreState.sentTransactionsTree (sent (calls env es)) := by
  obtain ⟨st, hs, hrun⟩ := state_run hg r (init.initialized hg isInit first)
  refine ⟨st, hs, hrun, ?_⟩
  rw [run_appended (fun _ _ _ h hinit => Update.sent (StateStep.update h.step) hinit) hrun
    (calls_notInit once)]
  exact appended_represents table few.le

end History

def replayProof (l : Ledger) (buffer : Pubkey) : FixedMerkleAppendTreePartialMerkleProof :=
  FixedMerkleAppendTreePartialMerkleProof.pod.decode (slice (l buffer).data 32 replayProofSize)

def replayTx (l : Ledger) (buffer : Pubkey) : Bytes := (l buffer).data.drop (32 + replayProofSize)

def btcHash256Bytes (c : Crypto) (tx : Bytes) : QHash256 := c.sha256 (c.sha256 tx).toList

structure Replays (env : BridgeEnv) (inv : Invocation) (l l' : Ledger) (effects : List Effect)
    (st : BridgeState) (bridgeState buffer : AccountInfo) (shim : ShimAccounts) : Prop where
  value : (replayProof l buffer.key).value = btcHash256Bytes env.crypto (replayTx l buffer.key)
  run : ∃ core, st.coreState.processReplayWithdrawalProof env.crypto (replayProof l buffer.key)
    (replayTime inv st.coreState) = .ok (some core)
  posted : ∃ n l₁, Posted env inv ⟨[], [buffer.key]⟩ (vaaCall env inv n shim bridgeState
    (btcHash256Bytes env.crypto (replayTx l buffer.key)).toList (replayTx l buffer.key)) l₁
      l' effects

theorem ShimListed.unique {accounts : List AccountInfo} {a a' b b' : AccountInfo}
    {s s' : ShimAccounts} (h : ShimListed accounts a b s) (h' : ShimListed accounts a' b' s') :
    a' = a ∧ b' = b ∧ s' = s := by
  obtain ⟨rest, rfl⟩ := h
  obtain ⟨rest', heq⟩ := h'
  simp only [List.cons.injEq] at heq
  obtain ⟨ha, hb, h₁, h₂, h₃, h₄, h₅, h₆, h₇, h₈, h₉, h₁₀, -⟩ := heq
  refine ⟨ha.symm, hb.symm, ?_⟩
  cases s
  cases s'
  simp only at h₁ h₂ h₃ h₄ h₅ h₆ h₇ h₈ h₉ h₁₀
  rw [h₁, h₂, h₃, h₄, h₅, h₆, h₇, h₈, h₉, h₁₀]

theorem Accepted.replays {bridgeState buffer : AccountInfo} {shim : ShimAccounts}
    {effects : List Effect} (hp : inv.programId = DOGE_BRIDGE_PROGRAM_ID) (hs : Holds env l st)
    (listed : ShimListed inv.accounts bridgeState buffer shim)
    (h : Accepted env inv l .replayWithdrawal l' effects) :
    Replays env inv l l' effects st bridgeState buffer shim := by
  cases h with
  | replayWithdrawal accounts pda txOwner read distinct long proofRead hash value run write post =>
    obtain ⟨rfl, rfl, rfl⟩ := ShimListed.unique listed accounts
    rw [hp] at pda
    rw [pda] at read
    have hst := BridgeState.pod.encode_injective ((congrArg Account.data hs).symm.trans read)
    rw [hst]
    rw [proofRead] at value run
    rw [hash] at value post
    exact ⟨value, ⟨_, run⟩, _, _, post⟩

/-- Whoever replays a transaction after a run without a collision proves that its hash was sent in
the run, or that it is the zero leaf, whatever proof they bring. -/
theorem replayed_was_sent {call : BridgeCall} {params : InitializeBridgeInstructionData}
    {l₀ l₁ l₂ : Ledger} (hg : Guarded env.platform) (table : TableConsistent env.crypto)
    (init : Step env l₀ (.bridge call) l₁) (isInit : call.ix = .initializeBridge params)
    (first : (l₀ (BridgeEnv.pda env)).data = []) (r : Run (Step env) l₁ es l₂)
    (once : ∀ e ∈ es, ¬ isInitialize e) (few : (sent (calls env es)).length < 2 ^ 32)
    (proof : FixedMerkleAppendTreePartialMerkleProof)
    (injective : Set.InjOn (fun q : QHash256 × QHash256 => hashTwoToOne env.crypto q.1 q.2)
      (checkedPairs env.crypto (sent (calls env es)) proof)) :
    ∃ st, Holds env l₂ st ∧
      (∀ now core, st.coreState.processReplayWithdrawalProof env.crypto proof now =
          .ok (some core) →
        proof.index.toNat < 2 ^ 32 ∧
        (proof.index.toNat < (sent (calls env es)).length →
          (sent (calls env es))[proof.index.toNat]? = some proof.value) ∧
        ((sent (calls env es)).length ≤ proof.index.toNat → proof.value = zeroHash 0)) ∧
      ∀ inv l₃ effects bridgeState buffer shim, inv.programId = DOGE_BRIDGE_PROGRAM_ID →
        ShimListed inv.accounts bridgeState buffer shim → replayProof l₂ buffer.key = proof →
        Accepted env inv l₂ .replayWithdrawal l₃ effects →
        btcHash256Bytes env.crypto (replayTx l₂ buffer.key) ∈ sent (calls env es) ∨
          btcHash256Bytes env.crypto (replayTx l₂ buffer.key) = zeroHash 0 := by
  obtain ⟨st, hs, -, htree⟩ := sent_represented hg table init isInit first r once few
  generalize hxs : sent (calls env es) = xs at *
  have hleaf {now : UInt32} {core : PsyBridgeProgramState}
      (h : st.coreState.processReplayWithdrawalProof env.crypto proof now = .ok (some core)) :
      proof.index.toNat < 2 ^ 32 ∧ proof.value = leaves (zeroHash 0) xs proof.index.toNat := by
    obtain ⟨hroot, -⟩ := PsyBridgeProgramState.processReplayWithdrawalProof_ok.mp h
    exact Represents.proof_leaf htree injective hroot
  refine ⟨st, hs, ?_, ?_⟩
  · intro now core h
    obtain ⟨hlt, hvalue⟩ := hleaf h
    refine ⟨hlt, ?_, ?_⟩
    · intro hin
      rw [hvalue, leaves, List.getD_eq_getElem?_getD, List.getElem?_eq_getElem hin]
      rfl
    · intro hout
      rw [hvalue, leaves, List.getD_eq_default _ _ hout]
  · intro inv l₃ effects bridgeState buffer shim hp listed hproof h
    have hreplays := Accepted.replays hp hs listed h
    obtain ⟨core, hrun⟩ := hreplays.run
    rw [hproof] at hrun
    rw [← hreplays.value, hproof, (hleaf hrun).2, leaves]
    by_cases hin : proof.index.toNat < xs.length
    · left
      rw [List.getD_eq_getElem _ _ hin]
      exact List.getElem_mem hin
    · right
      exact List.getD_eq_default _ _ (Nat.le_of_not_lt hin)

section Completeness

def sentTx : BridgeCall → Option Bytes
  | { ix := .processWithdrawal _, inv := inv, before := l, .. } =>
    inv.accounts[1]?.map fun buffer => (l buffer.key).data.drop 32
  | _ => none

def sentTxs (cs : List BridgeCall) : List Bytes := cs.filterMap sentTx

variable {call : BridgeCall} {cs : List BridgeCall}

theorem CallStep.sentTx (h : CallStep env st call st') :
    sentSighash call = (sentTx call).map env.crypto.sha256 := by
  obtain ⟨inv, ix, effects, l, l'⟩ := call
  have ha := h.accepted
  cases ix with
  | processWithdrawal params =>
    cases ha with
    | processWithdrawal accounts _ _ _ _ _ run =>
      obtain ⟨rest, hacc⟩ := accounts
      obtain ⟨htx, -⟩ := PsyBridgeProgramState.runProcessBridgeWithdrawal_ok.mp run
      dsimp only at hacc
      rw [SentTransactions.sentTx, hacc, sentSighash, ← htx]
      rfl
  | _ => rfl

theorem run_sentTxs (r : Run (CallStep env) st cs st') :
    sent cs = (sentTxs cs).map env.crypto.sha256 := by
  rw [sent, sentTxs, List.map_filterMap]
  refine List.filterMap_congr fun call hcall => ?_
  obtain ⟨_, _, hstep⟩ := r.step_of_mem hcall
  exact CallStep.sentTx hstep

/-- The time that an accepted replay counted as its own: the clock, or a second more where the
clock is what the state recorded before. -/
def replayedAt (env : BridgeEnv) : BridgeCall → Option UInt32
  | { ix := .replayWithdrawal, inv := inv, before := l, .. } =>
    some (replayTime inv (BridgeState.pod.decode (l (BridgeEnv.pda env)).data).coreState)
  | _ => none

/-- The time of the last accepted replay, or the start of the clock if there was none. -/
def lastReplay (env : BridgeEnv) (cs : List BridgeCall) : UInt32 :=
  (cs.filterMap (replayedAt env)).getLast?.getD 0

theorem lastReplay_append (cs : List BridgeCall) (call : BridgeCall) :
    lastReplay env (cs ++ [call]) = (replayedAt env call).getD (lastReplay env cs) := by
  rw [lastReplay, List.filterMap_append]
  cases h : replayedAt env call with
  | none =>
    rw [List.filterMap_cons_none h, List.filterMap_nil, List.append_nil]
    rfl
  | some t =>
    rw [List.filterMap_cons_some h, List.filterMap_nil, List.getLast?_concat]
    rfl

theorem Accepted.replay_recorded {effects : List Effect} (hg : Guarded env.platform)
    (hp : inv.programId = DOGE_BRIDGE_PROGRAM_ID) (hs : Holds env l st) (hs' : Holds env l' st')
    (h : Accepted env inv l .replayWithdrawal l' effects) :
    st'.coreState.lastProcessedWithdrawalsAtMs =
      (replayTime inv st.coreState).toUInt64 * 1000 := by
  cases h with
  | replayWithdrawal _ pda _ read _ _ _ _ _ run write post =>
    rw [hp] at pda
    rcases Rewrites.holds (rewrites_of_writeState hp read write (posted_untouched hg post)) hs with
      ⟨-, rfl, hs''⟩ | ⟨hne, -⟩
    · obtain ⟨-, -, rfl⟩ := PsyBridgeProgramState.processReplayWithdrawalProof_ok.mp run
      rw [Holds.unique hs' hs'']
    · exact absurd pda hne

theorem Update.lastProcessed {ix : BridgeInstruction} (h : Update env st ix st')
    (hinit : ∀ params, ix ≠ .initializeBridge params) (hix : ix ≠ .replayWithdrawal) :
    st'.coreState.lastProcessedWithdrawalsAtMs = st.coreState.lastProcessedWithdrawalsAtMs := by
  cases h with
  | initializeBridge params => exact absurd rfl (hinit params)
  | replayWithdrawal => exact absurd rfl hix
  | _ => rfl

theorem CallStep.recorded (hg : Guarded env.platform) (h : CallStep env st call st')
    (hinit : notInit call)
    (hst : st.coreState.lastProcessedWithdrawalsAtMs = (lastReplay env cs).toUInt64 * 1000) :
    st'.coreState.lastProcessedWithdrawalsAtMs =
      (lastReplay env (cs ++ [call])).toUInt64 * 1000 := by
  rw [lastReplay_append]
  by_cases hix : call.ix = .replayWithdrawal
  · have ha := h.accepted
    rw [hix] at ha
    have htime : replayedAt env call = some (replayTime call.inv st.coreState) := by
      rw [← CallStep.read h]
      cases call
      cases hix
      rfl
    rw [Accepted.replay_recorded hg h.program h.before h.after ha, htime]
    rfl
  · have hnone : replayedAt env call = none := by
      obtain ⟨inv, ix, effects, l, l'⟩ := call
      cases ix with
      | replayWithdrawal => exact absurd rfl hix
      | _ => rfl
    rw [Update.lastProcessed (StateStep.update h.step) hinit hix, hst, hnone]
    rfl

theorem run_recorded {params : InitializeBridgeInstructionData} (hg : Guarded env.platform)
    (r : Run (CallStep env) ⟨PsyBridgeProgramState.initialized params, params.dogeMint⟩ cs st)
    (hinit : ∀ call ∈ cs, notInit call) :
    st.coreState.lastProcessedWithdrawalsAtMs = (lastReplay env cs).toUInt64 * 1000 := by
  refine (r.restrict hinit).history
    (P := fun _ cs st =>
      st.coreState.lastProcessedWithdrawalsAtMs = (lastReplay env cs).toUInt64 * 1000) ?_ ?_
  · change (0 : UInt64) = (0 : UInt32).toUInt64 * 1000
    decide
  · intro _ _ _ _ _ ih hstep
    exact CallStep.recorded hg hstep.1 hstep.2 ih

theorem wait_over {t : UInt32} (h : t.toNat + 60 ≤ (currentTimestamp inv).toNat)
    (hst : st.coreState.lastProcessedWithdrawalsAtMs = t.toUInt64 * 1000) :
    ¬ st.coreState.lastProcessedWithdrawalsAtMs / 1000 +
      MIN_WAIT_TIME_REPLAY_WITHDRAWAL_SECS.toUInt64 >
        (replayTime inv st.coreState).toUInt64 := by
  have hthousand : (1000 : UInt64).toNat = 1000 := rfl
  have hsixty : MIN_WAIT_TIME_REPLAY_WITHDRAWAL_SECS.toUInt64.toNat = 60 := rfl
  have hone : (1 : UInt32).toNat = 1 := rfl
  have ht := t.toNat_lt
  have hnow := (currentTimestamp inv).toNat_lt
  have hms : (t.toUInt64 * 1000).toNat = t.toNat * 1000 := by
    rw [UInt64.toNat_mul, UInt32.toNat_toUInt64, hthousand]
    omega
  -- The extra second does not overflow: the recorded time is a multiple of 1000.
  have hlate : (currentTimestamp inv).toNat ≤ (replayTime inv st.coreState).toNat := by
    rw [replayTime]
    split
    · next hsame =>
      have hmul : t.toNat * 1000 = (currentTimestamp inv).toNat := by
        rw [← hms, ← hst, hsame, UInt32.toNat_toUInt64]
      rw [UInt32.toNat_add, hone]
      omega
    · exact le_rfl
  rw [gt_iff_lt, UInt64.not_lt, UInt64.le_iff_toNat_le, UInt64.toNat_add, UInt64.toNat_div, hst,
    hms, hthousand, hsixty, UInt32.toNat_toUInt64]
  omega

theorem replay_read {buffer : Pubkey} {header tx : Bytes}
    {proof : FixedMerkleAppendTreePartialMerkleProof} (hlen : header.length = 32)
    (h : (l buffer).data = header ++ FixedMerkleAppendTreePartialMerkleProof.pod.encode proof ++
      tx) :
    replayProof l buffer = proof ∧ replayTx l buffer = tx ∧
      (l buffer).data.length = 32 + replayProofSize + tx.length := by
  have hproof : (FixedMerkleAppendTreePartialMerkleProof.pod.encode proof).length =
      replayProofSize := Pod.encode_length _ _
  refine ⟨?_, ?_, ?_⟩
  · rw [replayProof, h, List.append_assoc, slice_append_right hlen, List.take_left' hproof,
      Pod.decode_encode]
  · rw [replayTx, h]
    exact List.drop_left' (by rw [List.length_append, hlen, hproof])
  · rw [h, List.length_append, List.length_append, hlen, hproof]

section Replay

variable {bridgeState buffer : AccountInfo} {shim : ShimAccounts} {core : PsyBridgeProgramState}

/-- A replay that passes the checks and posts its message is accepted. -/
theorem replay_accepted_of {effects : List Effect} (hp : inv.programId = DOGE_BRIDGE_PROGRAM_ID)
    (listed : ShimListed inv.accounts bridgeState buffer shim)
    (state : bridgeState.key = BridgeEnv.pda env) (writable : inv.writes (BridgeEnv.pda env))
    (owner : (l buffer.key).owner = GENERIC_BUFFER_BUILDER_PROGRAM_ID) (hs : Holds env l st)
    (long : 32 + replayProofSize + 10 ≤ (l buffer.key).data.length)
    (value : (replayProof l buffer.key).value = btcHash256Bytes env.crypto (replayTx l buffer.key))
    (run : st.coreState.processReplayWithdrawalProof env.crypto (replayProof l buffer.key)
      (replayTime inv st.coreState) = .ok (some core))
    (post : Posted env inv ⟨[], [buffer.key]⟩ (vaaCall env inv (nonce core) shim bridgeState
      (btcHash256Bytes env.crypto (replayTx l buffer.key)).toList (replayTx l buffer.key))
      (install env l (withCore st core)) l' effects) :
    Accepted env inv l .replayWithdrawal l' effects := by
  have howner : DOGE_BRIDGE_PROGRAM_ID ≠ GENERIC_BUFFER_BUILDER_PROGRAM_ID := by decide
  have hdistinct : buffer.key ≠ bridgeState.key := by
    intro heq
    rw [heq, state, show l (BridgeEnv.pda env) = _ from hs] at owner
    exact howner owner
  have hread : (l bridgeState.key).data = BridgeState.pod.encode st := by
    rw [state]
    exact congrArg Account.data hs
  have hwrite : writeState inv l bridgeState.key (withCore st core) =
      .ok (install env l (withCore st core)) := by
    rw [state, ← Holds.setData_eq_install hs]
    refine writeState_ok.mpr ⟨.inr ?_, rfl⟩
    rw [hp]
    exact ⟨congrArg Account.owner hs, writable⟩
  exact .replayWithdrawal listed (by rw [state, hp]; rfl) owner hread hdistinct long rfl rfl value
    run hwrite post

end Replay

/-- A replay of a sent transaction with the true path of its leaf, when the last replay is long
enough ago and the message can be posted. The leaf is the hash of the transaction, and the replay
compares it with the hash of that hash. -/
theorem replay_accepted_iff {call : BridgeCall} {params : InitializeBridgeInstructionData}
    {l₀ l₁ l₂ : Ledger} (hg : Guarded env.platform) (table : TableConsistent env.crypto)
    (init : Step env l₀ (.bridge call) l₁) (isInit : call.ix = .initializeBridge params)
    (first : (l₀ (BridgeEnv.pda env)).data = []) (r : Run (Step env) l₁ es l₂)
    (once : ∀ e ∈ es, ¬ isInitialize e) (few : (sentTxs (calls env es)).length < 2 ^ 32)
    {p : ℕ} {tx : Bytes} (wasSent : (sentTxs (calls env es))[p]? = some tx) (size : 10 ≤ tx.length)
    (injective : Set.InjOn env.crypto.sha256 {tx, (env.crypto.sha256 tx).toList})
    {bridgeState buffer : AccountInfo} {shim : ShimAccounts} {header : Bytes}
    (program : inv.programId = DOGE_BRIDGE_PROGRAM_ID)
    (listed : ShimListed inv.accounts bridgeState buffer shim)
    (state : bridgeState.key = BridgeEnv.pda env) (writable : inv.writes (BridgeEnv.pda env))
    (owner : (l₂ buffer.key).owner = GENERIC_BUFFER_BUILDER_PROGRAM_ID)
    (content : (l₂ buffer.key).data = header ++ FixedMerkleAppendTreePartialMerkleProof.pod.encode
      (truePath env.crypto (sent (calls env es)) p) ++ tx) (headerSize : header.length = 32)
    (wait : (lastReplay env (calls env es)).toNat + 60 ≤ (currentTimestamp inv).toNat)
    (posts : ∀ n l, ∃ l' effects, Posted env inv ⟨[], [buffer.key]⟩
      (vaaCall env inv n shim bridgeState (env.crypto.sha256 tx).toList tx) l l' effects) :
    (∃ l₃ effects n l', Accepted env inv l₂ .replayWithdrawal l₃ effects ∧
      Posted env inv ⟨[], [buffer.key]⟩ (vaaCall env inv n shim bridgeState
        (env.crypto.sha256 tx).toList tx) l' l₃ effects) ↔
    (env.crypto.sha256 tx).toList = tx := by
  obtain ⟨st₀, -, hrun₀⟩ := state_run hg r (init.initialized hg isInit first)
  have hsent := run_sentTxs hrun₀
  have hfew : (sent (calls env es)).length < 2 ^ 32 := by
    rw [hsent, List.length_map]
    exact few
  obtain ⟨st, hs, hrun, htree⟩ := sent_represented hg table init isInit first r once hfew
  obtain ⟨hproof, htx, hlength⟩ := replay_read headerSize content
  obtain ⟨hp, hget⟩ := List.getElem?_eq_some_iff.mp wasSent
  -- The leaf of the transaction is its hash.
  have hvalue : (truePath env.crypto (sent (calls env es)) p).value = env.crypto.sha256 tx := by
    change leaves (zeroHash 0) (sent (calls env es)) p = _
    rw [hsent, leaves, List.getD_eq_getElem _ _ (by rw [List.length_map]; exact hp),
      List.getElem_map, hget]
  constructor
  · rintro ⟨l₃, effects, _, _, ha, -⟩
    have hchecked := (Accepted.replays program hs listed ha).value
    rw [hproof, htx, hvalue, btcHash256Bytes] at hchecked
    exact (injective (.inl rfl) (.inr rfl) hchecked).symm
  · intro hself
    have hdouble : btcHash256Bytes env.crypto tx = env.crypto.sha256 tx := by
      rw [btcHash256Bytes, hself]
    have hroot := Represents.truePath_root htree (lt_trans hp few)
    have hwait := wait_over wait (run_recorded hg hrun (calls_notInit once))
    have hcore := PsyBridgeProgramState.processReplayWithdrawalProof_ok.mpr ⟨hroot, hwait, rfl⟩
    rw [← hproof] at hcore
    have haccepted {l' : Ledger} {effects : List Effect} :=
      @replay_accepted_of env inv l₂ l' st _ _ _
      _ effects program listed state writable owner hs (by rw [hlength]; omega)
      (by rw [hproof, htx, hvalue, hdouble]) hcore
    rw [htx, hdouble] at haccepted
    obtain ⟨l₃, effects, hpost⟩ := posts _ _
    exact ⟨l₃, effects, _, _, haccepted hpost, hpost⟩

end Completeness

section Samples

open SignedCalls

def sampleTx : Bytes := [1, 2, 3, 4, 5, 6, 7, 8, 9, 10]

def replayBuffer : Pubkey := Vector.replicate 32 7

def replayLedger : Ledger :=
  Function.update
    (Function.update emptyLedger txBuffer
      ⟨GENERIC_BUFFER_BUILDER_PROGRAM_ID, List.replicate 32 0 ++ sampleTx⟩)
    replayBuffer ⟨GENERIC_BUFFER_BUILDER_PROGRAM_ID, List.replicate 32 0 ++
      FixedMerkleAppendTreePartialMerkleProof.pod.encode
        (truePath crypto [crypto.sha256 sampleTx] 0) ++ sampleTx⟩

def replayInvocation (env : BridgeEnv) : Invocation :=
  { withdrawalInvocation env NOOP_SHIM_PROGRAM_ID operatorKey replayBuffer with
    unixTimestamp := 100 }

theorem replayInvocation_listed (env : BridgeEnv) : ShimListed (replayInvocation env).accounts
    ⟨BridgeEnv.pda env, false, true⟩ ⟨replayBuffer, false, false⟩
    (shimArguments NOOP_SHIM_PROGRAM_ID operatorKey) := ⟨[], rfl⟩

theorem replayInvocation_writes (env : BridgeEnv) :
    (replayInvocation env).writes (BridgeEnv.pda env) := ⟨_, List.mem_cons_self, rfl, rfl⟩

theorem replay_posted (hp : inv.programId = DOGE_BRIDGE_PROGRAM_ID)
    (hacc : inv.accounts = (replayInvocation env).accounts)
    (hf : env.features.wormhole = false ∧ env.features.noopshim = true)
    (hne : BridgeEnv.pda env ≠ replayBuffer) (n : UInt32) (sighash tx : Bytes) (l : Ledger) :
    ∃ effects, Posted env inv ⟨[], [replayBuffer]⟩
      (vaaCall env inv n (shimArguments NOOP_SHIM_PROGRAM_ID operatorKey)
        ⟨BridgeEnv.pda env, false, true⟩ sighash tx) l l effects := by
  have hsigner : (vaaCall env inv n (shimArguments NOOP_SHIM_PROGRAM_ID operatorKey)
      ⟨BridgeEnv.pda env, false, true⟩ sighash tx).signer = some (BridgeEnv.pda env) :=
    congrArg (fun k => some (env.bridgePda k)) hp
  exact ⟨_, message_posted hacc (noopShim_callee rfl rfl) hf (by decide) hne rfl rfl hsigner⟩

theorem crypto_table : TableConsistent crypto := shaOnly_table

theorem replayLedger_unused : replayLedger (BridgeEnv.pda cluster) = ⟨SYSTEM_PROGRAM_ID, []⟩ := by
  have h₁ : bridgeState ≠ replayBuffer := by decide
  have h₂ : bridgeState ≠ txBuffer := by decide
  rw [cluster_pda, replayLedger, Function.update_of_ne h₁, Function.update_of_ne h₂]
  rfl

theorem sample_sent :
    ∃ es l₁ l₂ call, Step cluster replayLedger (.bridge (genesisCall es replayLedger l₁)) l₁ ∧
      Step cluster l₁ (.bridge call) l₂ ∧
      call.ix = .processWithdrawal (withdrawalData cluster sampleTx) ∧
      call.on (BridgeEnv.pda cluster) ∧ sentTx call = some sampleTx ∧
      l₂ replayBuffer = replayLedger replayBuffer ∧
      Holds cluster l₂ (withdrawn cluster (genesisState operatorKey 10)
        (withdrawalData cluster sampleTx)) := by
  have hreplay : replayBuffer ≠ BridgeEnv.pda cluster := ne_pda (by decide)
  have hne : txBuffer ≠ replayBuffer := by decide
  have hbuffer : replayLedger txBuffer =
      ⟨GENERIC_BUFFER_BUILDER_PROGRAM_ID, List.replicate 32 0 ++ sampleTx⟩ := by
    rw [replayLedger, Function.update_of_ne hne, Function.update_self]
  have hhash : crypto.sha256 sampleTx = (withdrawalData cluster sampleTx).newReturnOutput.sighash :=
    rfl
  obtain ⟨es, l₁, l₂, c, h₁, h₂, hkept, hl₂⟩ :=
    cluster_withdrawal replayLedger_unused hbuffer hhash
  refine ⟨es, l₁, l₂, _, h₁, h₂, rfl, withdrawalInvocation_on _ _ _ _, ?_, ?_,
    hl₂ ▸ install_holds _ _ _⟩
  · change some ((l₁ txBuffer).data.drop 32) = _
    rw [hkept, hbuffer]
    rfl
  · rw [hl₂, install_of_ne hreplay]

/-- The pairs on the way up from the leftmost node of level `d`, with nothing to its right. -/
def spinePairs (c : Crypto) : QHash256 → ℕ → ℕ → List (QHash256 × QHash256)
  | _, _, 0 => []
  | v, d, n + 1 => (v, zeroHash d) :: spinePairs c (hashTwoToOne c v (zeroHash d)) (d + 1) n

def zeroPairs : List (QHash256 × QHash256) :=
  (List.range TREE_HEIGHT).map fun d => (zeroHash d, zeroHash d)

section Spine

variable {v : QHash256}

theorem node_right (table : TableConsistent c) {d i : ℕ} (hd : d ≤ TREE_HEIGHT) (hi : 1 ≤ i) :
    node (hashTwoToOne c) (leaves (zeroHash 0) [v]) d i = zeroHash d :=
  node_beyond [v] table hd (hi.trans (Nat.le_mul_of_pos_right i (Nat.two_pow_pos d)))

theorem mem_spinePairs (table : TableConsistent c) {d n j : ℕ} (hj : d ≤ j) (hlt : j < d + n)
    (hn : d + n ≤ TREE_HEIGHT) : (node (hashTwoToOne c) (leaves (zeroHash 0) [v]) j 0, zeroHash j) ∈
      spinePairs c (node (hashTwoToOne c) (leaves (zeroHash 0) [v]) d 0) d n := by
  induction n generalizing d with
  | zero => omega
  | succ n ih =>
    rw [spinePairs, List.mem_cons]
    by_cases hd : j = d
    · exact .inl (by rw [hd])
    · right
      have hup : hashTwoToOne c (node (hashTwoToOne c) (leaves (zeroHash 0) [v]) d 0) (zeroHash d) =
          node (hashTwoToOne c) (leaves (zeroHash 0) [v]) (d + 1) 0 := by
        rw [← node_right (v := v) (d := d) table (by omega) le_rfl]
        rfl
      rw [hup]
      exact ih (by omega) (by omega) (by omega)

/-- A tree of one leaf pairs the nodes above the leaf with zeros, and zeros with each other. -/
theorem checkedPairs_single (table : TableConsistent c) : checkedPairs c [v] (truePath c [v] 0) ⊆
    { q | q ∈ spinePairs c v 0 TREE_HEIGHT ++ zeroPairs } := by
  refine (Set.union_subset le_rfl ?_).trans ?_
  · have hpath : _ ⊆ nodePairs (hashTwoToOne c) _ _ := climbPairs_path (leaves (zeroHash 0) [v])
      (p := 0) (d := 0) (n := TREE_HEIGHT) (Nat.two_pow_pos _)
    rw [pow_zero, Nat.div_one, zero_add] at hpath
    rw [truePath_siblings, path, List.range_eq_range']
    exact hpath
  · rintro _ ⟨d, i, hd, -, rfl⟩
    rw [Set.mem_ofPred_eq, List.mem_append]
    rcases Nat.eq_zero_or_pos i with rfl | hi
    · left
      rw [node_right table hd.le (Nat.le_add_left 1 _)]
      exact mem_spinePairs table (Nat.zero_le d) (by omega) (by omega)
    · right
      rw [node_right table hd.le (by omega), node_right table hd.le (by omega)]
      exact List.mem_map.mpr ⟨d, List.mem_range.mpr hd, rfl⟩

end Spine

def mark (h : QHash256) : ℕ := (h.toList.getD 0 0).toNat * 256 + (h.toList.getD 1 0).toNat

theorem sample_injective : Set.InjOn (fun q : QHash256 × QHash256 => hashTwoToOne crypto q.1 q.2)
    (checkedPairs crypto [crypto.sha256 sampleTx]
      (truePath crypto [crypto.sha256 sampleTx] 0)) := by
  have hmarks : ((spinePairs crypto (crypto.sha256 sampleTx) 0 TREE_HEIGHT).map
      (fun q => mark (hashTwoToOne crypto q.1 q.2)) ++
      (List.range TREE_HEIGHT).map fun d => mark (zeroHash (d + 1))).Nodup := by
    decide +kernel
  have hzero : ((List.range TREE_HEIGHT).map fun d => mark (zeroHash (d + 1))) =
      zeroPairs.map fun q => mark (hashTwoToOne crypto q.1 q.2) := by
    rw [zeroPairs, List.map_map]
    refine List.map_congr_left fun d hd => ?_
    rw [crypto_table d (List.mem_range.mp hd)]
    rfl
  rw [hzero, ← List.map_append] at hmarks
  intro q hq q' hq' h
  exact List.inj_on_of_nodup_map hmarks (checkedPairs_single crypto_table hq)
    (checkedPairs_single crypto_table hq') (congrArg mark h)

section Sent

variable {call : BridgeCall} (hix : call.ix = .processWithdrawal (withdrawalData cluster sampleTx))

include hix

theorem sample_sighash (hon : call.on (BridgeEnv.pda cluster)) :
    sent (calls cluster [.bridge call]) = [crypto.sha256 sampleTx] := by
  have hsighash : sentSighash call = some (crypto.sha256 sampleTx) := by
    cases call
    cases hix
    rfl
  rw [calls_single hon, sent, List.filterMap_cons_some hsighash, List.filterMap_nil]

theorem sample_once : ∀ e ∈ [Event.bridge call], ¬ isInitialize e := by
  rw [List.forall_mem_singleton]
  cases call
  cases hix
  exact id

end Sent

/-- `replayed_was_sent` after one withdrawal: the true path of its leaf is accepted, and it is a
proof of what the withdrawal sent. -/
theorem replayed_after_withdrawal :
    ∃ es l₁ l₂ call st core,
      Step cluster replayLedger (.bridge (genesisCall es replayLedger l₁)) l₁ ∧
      Step cluster l₁ (.bridge call) l₂ ∧ sentTx call = some sampleTx ∧ Holds cluster l₂ st ∧
      st.coreState.processReplayWithdrawalProof crypto (truePath crypto [crypto.sha256 sampleTx] 0)
        60 = .ok (some core) ∧
      (sent (calls cluster [.bridge call]))[0]? =
        some (truePath crypto [crypto.sha256 sampleTx] 0).value := by
  obtain ⟨es, l₁, l₂, call, h₁, h₂, hix, hon, htx, -, hl₂⟩ := sample_sent
  have hsent := sample_sighash hix hon
  have hfew : (sent (calls cluster [.bridge call])).length < 2 ^ 32 := by
    rw [hsent]
    decide
  have hunused := congrArg Account.data replayLedger_unused
  have hinjective : Set.InjOn (fun q : QHash256 × QHash256 => hashTwoToOne cluster.crypto q.1 q.2)
      (checkedPairs cluster.crypto (sent (calls cluster [.bridge call]))
        (truePath crypto [crypto.sha256 sampleTx] 0)) := by
    rw [hsent]
    exact sample_injective
  obtain ⟨st, hs, hproof, -⟩ := replayed_was_sent cluster_guarded crypto_table h₁ rfl hunused
    (.single h₂) (sample_once hix) hfew (truePath crypto [crypto.sha256 sampleTx] 0) hinjective
  obtain ⟨st', hs', -, htree⟩ := sent_represented cluster_guarded crypto_table h₁ rfl hunused
    (.single h₂) (sample_once hix) hfew
  cases Holds.unique hs hs'
  cases Holds.unique hs hl₂
  rw [hsent] at htree
  have haccepted : PsyBridgeProgramState.processReplayWithdrawalProof crypto _ _ 60 = .ok _ :=
    PsyBridgeProgramState.processReplayWithdrawalProof_ok.mpr
      ⟨Represents.truePath_root htree (p := 0) (by decide), by decide, rfl⟩
  obtain ⟨-, hin, -⟩ := hproof 60 _ haccepted
  refine ⟨es, l₁, l₂, call, _, _, h₁, h₂, htx, hs, haccepted, hin ?_⟩
  rw [hsent]
  decide

/-- The transaction was sent and the replay shows its true path, but it is refused. -/
theorem replay_of_sent_refused :
    ∃ es l₁ l₂ call, Step cluster replayLedger (.bridge (genesisCall es replayLedger l₁)) l₁ ∧
      Step cluster l₁ (.bridge call) l₂ ∧ sentTx call = some sampleTx ∧
      replayProof l₂ replayBuffer = truePath crypto [crypto.sha256 sampleTx] 0 ∧
      replayTx l₂ replayBuffer = sampleTx ∧
      ∀ l₃ effects, ¬ Accepted cluster (replayInvocation cluster) l₂ .replayWithdrawal l₃
        effects := by
  obtain ⟨es, l₁, l₂, call, h₁, h₂, -, -, htx, hkept, hs⟩ := sample_sent
  have hcontent : (l₂ replayBuffer).data = List.replicate 32 0 ++
      FixedMerkleAppendTreePartialMerkleProof.pod.encode
        (truePath crypto [crypto.sha256 sampleTx] 0) ++ sampleTx := by
    rw [hkept, replayLedger, Function.update_self]
  obtain ⟨hproof, hreplay, -⟩ := replay_read List.length_replicate hcontent
  refine ⟨es, l₁, l₂, call, h₁, h₂, htx, hproof, hreplay, ?_⟩
  intro l₃ effects ha
  have hvalue := (Accepted.replays rfl hs (replayInvocation_listed cluster) ha).value
  dsimp only at hvalue
  rw [hproof, hreplay] at hvalue
  have hdiffers : crypto.sha256 sampleTx ≠ btcHash256Bytes crypto sampleTx := by decide +kernel
  exact hdiffers hvalue

/-- `replay_accepted_iff` for that replay: it would be accepted if the transaction were its own
hash. -/
theorem replay_of_sample :
    ∃ es l₁ l₂ call, Step cluster replayLedger (.bridge (genesisCall es replayLedger l₁)) l₁ ∧
      Step cluster l₁ (.bridge call) l₂ ∧ sentTx call = some sampleTx ∧
      ((∃ l₃ effects n l', Accepted cluster (replayInvocation cluster) l₂ .replayWithdrawal l₃
        effects ∧ Posted cluster (replayInvocation cluster) ⟨[], [replayBuffer]⟩ (vaaCall cluster
          (replayInvocation cluster) n (shimArguments NOOP_SHIM_PROGRAM_ID operatorKey)
          ⟨BridgeEnv.pda cluster, false, true⟩ (crypto.sha256 sampleTx).toList sampleTx)
          l' l₃ effects) ↔
        (crypto.sha256 sampleTx).toList = sampleTx) := by
  obtain ⟨es, l₁, l₂, call, h₁, h₂, hix, hon, htx, hkept, -⟩ := sample_sent
  have hcalls : calls cluster [.bridge call] = [call] := calls_single hon
  have htxs : sentTxs (calls cluster [.bridge call]) = [sampleTx] := by
    rw [hcalls, sentTxs, List.filterMap_cons_some htx, List.filterMap_nil]
  have hreplayed : replayedAt cluster call = none := by
    cases call
    cases hix
    rfl
  have hlast : lastReplay cluster (calls cluster [.bridge call]) = 0 := by
    rw [hcalls, lastReplay, List.filterMap_cons_none hreplayed]
    rfl
  have hcontent : (l₂ replayBuffer).data = List.replicate 32 0 ++
      FixedMerkleAppendTreePartialMerkleProof.pod.encode
        (truePath crypto (sent (calls cluster [.bridge call])) 0) ++ sampleTx := by
    rw [sample_sighash hix hon, hkept, replayLedger, Function.update_self]
  have hpda : BridgeEnv.pda cluster ≠ replayBuffer := (ne_pda (by decide)).symm
  have hinjective : Set.InjOn crypto.sha256 {sampleTx, (crypto.sha256 sampleTx).toList} := by
    have hdiffers : crypto.sha256 sampleTx ≠ crypto.sha256 (crypto.sha256 sampleTx).toList := by
      decide +kernel
    exact Set.injOn_pair.mpr fun h => absurd h hdiffers
  have howner : (l₂ replayBuffer).owner = GENERIC_BUFFER_BUILDER_PROGRAM_ID := by
    rw [hkept, replayLedger, Function.update_self]
  have hkey (k : Pubkey) : (⟨k, false, true⟩ : AccountInfo).key = k := rfl
  refine ⟨es, l₁, l₂, call, h₁, h₂, htx, ?_⟩
  exact replay_accepted_iff cluster_guarded crypto_table h₁ rfl
    (congrArg Account.data replayLedger_unused) (.single h₂) (sample_once hix)
    (by rw [htxs]; decide) (by rw [htxs]; rfl) (by decide) hinjective rfl
    (replayInvocation_listed cluster) (hkey _) (replayInvocation_writes cluster) howner hcontent
    List.length_replicate (by rw [hlast]; decide)
    fun n l => ⟨l, replay_posted rfl rfl ⟨rfl, rfl⟩ hpda n _ _ l⟩

end Samples

end SentTransactions
