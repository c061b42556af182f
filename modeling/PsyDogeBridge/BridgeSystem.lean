import PsyDogeBridge.AcceptedInstructions
import PsyDogeBridge.TransitionFacts

/-! The bridge among the other programs of the chain: what an accepted instruction does to the
accounts of the bridge, and runs in which anybody calls the bridge, the mint buffers and
everything else in any order. -/
namespace BridgeSystem

open PodLayout CheckedSteps SolanaRuntime BridgeData MintGroups ProgramState BlockTransition
  TransitionFacts BridgeCalls BridgeProcessor AcceptedInstructions

variable {env : BridgeEnv} {inv : Invocation} {l l' : Ledger} {es : List Effect}

section Guarded

/-- The program `k` leaves the accounts of the programs in `own` alone. -/
def Bystander (p : Platform) (own : Pubkey → Prop) (k : Pubkey) : Prop :=
  ∀ l accounts data l', p.foreign k l accounts data = some l' → Untouched own l l'

def ofBridge (k : Pubkey) : Prop := k = DOGE_BRIDGE_PROGRAM_ID

def Guarded (p : Platform) : Prop := ∀ k, Bystander p ofBridge k

theorem buffer_ne_bridge : PENDING_MINT_BUFFER_BUILDER_PROGRAM_ID ≠ DOGE_BRIDGE_PROGRAM_ID := by
  decide

theorem system_ne_bridge : SYSTEM_PROGRAM_ID ≠ DOGE_BRIDGE_PROGRAM_ID := by decide

theorem bufferEffect_untouched {c : Crypto} {upload : Bytes} {k : Pubkey}
    (hp : inv.programId = PENDING_MINT_BUFFER_BUILDER_PROGRAM_ID)
    (h : BufferSteps.Effect c inv upload l l' k) : Untouched ofBridge l l' := by
  obtain ⟨d, d', hw, -⟩ := h
  have hk : (l k).owner ≠ DOGE_BRIDGE_PROGRAM_ID := by
    rcases hw.before with h | ⟨h, -⟩
    · rw [h, hp]
      exact buffer_ne_bridge
    · rw [h]
      exact system_ne_bridge
  constructor
  · intro k' hk'
    have hne : k' ≠ k := by
      rintro rfl
      exact hk hk'
    rw [hw.eq, Function.update_of_ne hne]
  · intro k' hk' hl
    by_cases hne : k' = k
    · subst hne
      rw [hw.data, hp] at hk'
      exact absurd hk' buffer_ne_bridge
    · rw [hw.eq, Function.update_of_ne hne] at hk'
      exact absurd hk' hl

theorem bufferCall_effect {c : Cpi} (hc : c.programId = PENDING_MINT_BUFFER_BUILDER_PROGRAM_ID)
    (h : callee env inv c l = some l') :
    ∃ storage rest, c.accounts = storage :: rest ∧ BufferSteps.Effect env.crypto
      { inv with programId := c.programId, accounts := c.accounts } (c.data.drop 3) l l'
      storage.key := by
  rw [callee, if_pos hc] at h
  cases hr : PendingMintBuffer.processInstruction env.platform env.crypto
      { inv with programId := c.programId, accounts := c.accounts } l c.data with
  | error e =>
    rw [hr] at h
    cases h
  | ok r =>
    rw [hr] at h
    cases h
    exact BufferSteps.processInstruction_effect hr

theorem callee_untouched {c : Cpi} (hg : Guarded env.platform)
    (h : callee env inv c l = some l') : Untouched ofBridge l l' := by
  by_cases hc : c.programId = PENDING_MINT_BUFFER_BUILDER_PROGRAM_ID
  · obtain ⟨storage, rest, -, he⟩ := bufferCall_effect hc h
    exact bufferEffect_untouched hc he
  · rw [callee, if_neg hc] at h
    split at h
    · obtain ⟨-, -, rfl⟩ := Option.map_eq_some_iff.mp h
      exact .refl _ _
    · split at h
      · cases h
      · exact hg _ _ _ _ _ h

variable {b : Borrows} {recipients : List AccountInfo}

theorem calledIf_untouched {flag : Bool} {c : Cpi} {r : Ledger × List Effect}
    (hg : Guarded env.platform) (h : CalledIf env inv flag b c l r) :
    Untouched ofBridge l r.1 := by
  unfold CalledIf at h
  split at h
  · exact callee_untouched hg h.1.2.2.2
  · rw [h]
    exact .refl _ _

theorem mintRecords_rel {R : Ledger → Ledger → Prop} {mint authority : AccountInfo} {mem : Bytes}
    {start n p : ℕ} (refl : ∀ l, R l l) (trans : ∀ l m n, R l m → R m n → R l n)
    (one : ∀ recipient amount l l',
      Called env inv b (mintToCall env inv mint recipient authority amount) l l' → R l l')
    (h : mintRecords env inv b mint authority recipients mem start n p l = .ok (l', es)) :
    R l l' := by
  induction n generalizing p l es with
  | zero =>
    cases h
    exact refl _
  | succ n ih =>
    simp only [mintRecords, bind_ok, ensure_ok, exists_const, mintTo_ok, pure_ok, Prod.exists,
      Prod.mk.injEq] at h
    obtain ⟨-, l₁, c, ⟨recipient, -, -, rfl, hc⟩, l₂, es₂, hrest, rfl, -⟩ := h
    exact trans _ _ _ (one _ _ _ _ hc) (ih hrest)

theorem groupMinted_untouched {bridgeState mintBuffer dogeMint : AccountInfo} {claim : GroupClaim}
    {lockFirst shouldUnlock : Bool} (hg : Guarded env.platform)
    (h : GroupMinted env inv l bridgeState mintBuffer dogeMint recipients claim lockFirst
      shouldUnlock l' es) : Untouched ofBridge l l' := by
  obtain ⟨-, hl, hm, -, hu⟩ := h
  have hmint := mintRecords_rel (R := Untouched ofBridge) (.refl _) (fun _ _ _ => .trans)
    (fun _ _ _ _ hc => callee_untouched hg hc.2.2.2) hm
  exact ((calledIf_untouched hg hl).trans hmint).trans (calledIf_untouched hg hu)

theorem posted_untouched {c : Cpi} (hg : Guarded env.platform) (h : Posted env inv b c l l' es) :
    Untouched ofBridge l l' := by
  obtain ⟨hw, hn⟩ := h
  exact (calledIf_untouched hg hw).trans (calledIf_untouched hg hn)

end Guarded

section States

/-- What an accepted instruction does to the state that it is given. What it reads from
elsewhere (buffers, the clock, recipients) may be anything. -/
inductive StateStep (env : BridgeEnv) : BridgeInstruction → BridgeState → BridgeState → Prop where
  | initializeBridge (params st) : StateStep env (.initializeBridge params) st
      ⟨PsyBridgeProgramState.initialized params, params.dogeMint⟩
  | blockUpdate {fixed mintBump txoBump st core proof vk bridge account txoMem mintMem}
      (run : SingleBlock env.crypto st.coreState proof vk fixed.header bridge account txoMem mintMem
        core) :
      StateStep env (.blockUpdate fixed mintBump txoBump) st { st with coreState := core }
  | processReorgBlocks {fixed extra mintBump txoBump st core proof vk bridge account txoMem mintMem}
      (run : Reorg env.crypto st.coreState proof vk fixed.header extra bridge account txoMem mintMem
        core) :
      StateStep env (.processReorgBlocks fixed extra mintBump txoBump) st
        { st with coreState := core }
  | requestWithdrawal {request st core}
      (run : st.coreState.processRequestWithdrawal env.crypto request.addressType
        request.recipientAddress request.amountSats = some core) :
      StateStep env (.requestWithdrawal request) st { st with coreState := core }
  | processWithdrawal {params st core tx sighash}
      (run : st.coreState.runProcessBridgeWithdrawal env.crypto params.proof.toList
        (WITHDRAWAL_VK env.features).toList tx params.newReturnOutput params.newSpentTxoTreeRoot
        params.newNextProcessedWithdrawalsIndex = .ok (core, sighash)) :
      StateStep env (.processWithdrawal params) st { st with coreState := core }
  | operatorWithdrawFees {st core fees}
      (run : st.coreState.runBridgeOperatorWithdrawFeesPrecheck = .ok (core, fees)) :
      StateStep env .operatorWithdrawFees st { st with coreState := core }
  | processManualDeposit {params st core recipient amount}
      (run : st.coreState.processManualClaimedDeposit env.crypto params.txHash
        params.recentBlockMerkleTreeRoot params.recentAutoClaimTxoRoot params.combinedTxoIndex
        recipient params.depositAmountSats = .ok (core, amount)) :
      StateStep env (.processManualDeposit params) st { st with coreState := core }
  | replayWithdrawal {st core proof now}
      (run : st.coreState.processReplayWithdrawalProof env.crypto proof now = .ok (some core)) :
      StateStep env .replayWithdrawal st { st with coreState := core }
  | processMintGroup {groupIndex bump shouldUnlock st core account claim}
      (run : ClaimsGroup st.coreState groupIndex account core claim) :
      StateStep env (.processMintGroup groupIndex bump shouldUnlock)
        st { st with coreState := core }
  | processMintGroupAutoAdvance
      {groupIndex mintBump txoBump shouldUnlock st core₁ core account claim}
      (setup : core₁ = st.coreState ∨ ∃ bridge txoMem mintMem,
        runSetupNextPendingBuffer env.crypto st.coreState bridge account txoMem mintMem = .ok core₁)
      (run : ClaimsGroup core₁ groupIndex account core claim) :
      StateStep env (.processMintGroupAutoAdvance groupIndex mintBump txoBump shouldUnlock) st
        { st with coreState := core }
  | snapshotWithdrawals {st now} :
      StateStep env .snapshotWithdrawals st
        { st with coreState := st.coreState.snapshotForWithdrawal now }

variable {t a m operator k : Pubkey} {extra : List FinalizedBlockMintTxoInfo}
  {core : PsyBridgeProgramState} {st : BridgeState} {h : PsyBridgeHeader}
  {proof : CompactBridgeZKProof} {isReorg : Bool} {bump : UInt8} {ix : BridgeInstruction}

theorem runTransition_single :
    runTransition env l st proof h extra a m t false = .ok core ↔
      SingleBlock env.crypto st.coreState proof.toList (SINGLE_BLOCK_UPDATE_VK env.features).toList
        h a m (l t).data (l m).data core := by
  rw [runTransition, if_neg Bool.false_ne_true, runStandardSingleBlockTransition_ok]

theorem runTransition_reorg :
    runTransition env l st proof h extra a m t true = .ok core ↔
      Reorg env.crypto st.coreState proof.toList (BLOCK_REORG_VK env.features).toList h extra a m
        (l t).data (l m).data core := by
  rw [runTransition, if_pos rfl, runBlockTransitionReorg_ok]

/-- What a block update does to the backlog: nothing, or it opens it with the buffer `account`.
A single block does so if it counts new deposits, a reorganisation if a block is not empty. -/
inductive BacklogUpdate (c : Crypto) (s : PsyBridgeProgramState) (header : PsyBridgeHeader)
    (extra : List FinalizedBlockMintTxoInfo) (isReorg : Bool) (bridge account : Vector UInt8 32)
    (txoMem mintMem : Bytes) (m : FinalizedBlockMintTxoManager) : Prop where
  | kept (same : m = s.pendingMintTxos)
      (quiet : if isReorg then ∀ e ∈ extra ++ [headerInfo header], e.isEmpty = true
        else newAutoClaims s header = 0)
  | opens {height items count}
      (opens : Opens c s.pendingMintTxos height items bridge account txoMem mintMem count m)
      (mints : if isReorg then ∃ e ∈ extra ++ [headerInfo header], e.isEmpty = false
        else newAutoClaims s header ≠ 0)

theorem runTransition_backlog
    (hrun : runTransition env l st proof h extra a m t isReorg = .ok core) :
    core.bridgeHeader = h ∧ BacklogUpdate env.crypto st.coreState h extra isReorg a m (l t).data
      (l m).data core.pendingMintTxos := by
  cases isReorg with
  | false =>
    obtain ⟨-, -, -, -, _, recent, hbacklog, -, rfl⟩ := runTransition_single.mp hrun
    cases hbacklog with
    | kept same _ eq => exact ⟨rfl, .kept eq same⟩
    | opens raised _ opens => exact ⟨rfl, .opens opens raised⟩
  | true =>
    obtain ⟨-, -, -, -, _, hbacklog, rfl⟩ := runTransition_reorg.mp hrun
    cases hbacklog with
    | kept empty eq => exact ⟨rfl, .kept eq empty⟩
    | opens _ _ opens =>
      obtain ⟨e, rest, hitems, he, -⟩ := opens.head
      exact ⟨rfl, .opens opens ⟨e, List.mem_of_mem_drop (hitems ▸ List.mem_cons_self), he⟩⟩

theorem advanceIf_true :
    advanceIf env l true st a m t operator bump = .ok core ↔
      (l t).owner = TXO_BUFFER_BUILDER_PROGRAM_ID ∧
      env.platform.createProgramAddress [TXO_BUFFER_SEED, operator.toList, [bump]]
        TXO_BUFFER_BUILDER_PROGRAM_ID = some t ∧ (t ≠ a ∧ m ≠ a) ∧
      runSetupNextPendingBuffer env.crypto st.coreState a m (l t).data (l m).data = .ok core := by
  simp only [advanceIf, if_true, bind_ok, ensure_ok, exists_const, orFail_ok]
  constructor
  · rintro ⟨ho, _, hp, rfl, hd, hs⟩
    exact ⟨ho, hp, hd, hs⟩
  · rintro ⟨ho, hp, hd, hs⟩
    exact ⟨ho, _, hp, rfl, hd, hs⟩

theorem advanceIf_false :
    advanceIf env l false st a m t operator bump = .ok core ↔ core = st.coreState := by
  rw [advanceIf, if_neg Bool.false_ne_true, pure_ok, eq_comm]

/-- The account `k` held `st`, was rewritten to `st'`, and then the accounts of the bridge were
left alone. Only an account of the bridge can hold something else afterwards. -/
structure Rewrites (inv : Invocation) (l l' : Ledger) (k : Pubkey)
    (st st' : BridgeState) : Prop where
  read : (l k).data = BridgeState.pod.encode st
  write : st' = st ∨ (l k).owner = DOGE_BRIDGE_PROGRAM_ID ∧ inv.writes k
  rest : Untouched ofBridge (l.setData k (BridgeState.pod.encode st')) l'

theorem rewrites_of_writeState {st' : BridgeState} {l₁ : Ledger}
    (hp : inv.programId = DOGE_BRIDGE_PROGRAM_ID) (hr : (l k).data = BridgeState.pod.encode st)
    (hw : writeState inv l k st' = .ok l₁) (hu : Untouched ofBridge l₁ l') :
    Rewrites inv l l' k st st' := by
  obtain ⟨hor, rfl⟩ := writeState_ok.mp hw
  rw [hr, Pod.encode_inj, hp] at hor
  exact ⟨hr, hor.imp_left Eq.symm, hu⟩

theorem Untouched.setData {own : Pubkey → Prop} {d : Bytes} (h : Untouched own l l')
    (hk : l' k = l k) : Untouched own (l.setData k d) (l'.setData k d) := by
  constructor
  · intro k' ho
    rw [setData_owner] at ho
    by_cases hne : k' = k
    · subst hne
      rw [setData_self, setData_self, hk]
    · rw [setData_of_ne hne, setData_of_ne hne]
      exact h.kept k' ho
  · intro k' ho hl
    rw [setData_owner] at ho hl
    by_cases hne : k' = k
    · subst hne
      rw [hk] at ho
      exact absurd ho hl
    · rw [setData_of_ne hne]
      exact h.fresh k' ho hl

/-- The two ways in which an accepted instruction meets its state: it finds it, or it creates
the account first. -/
inductive Effected (env : BridgeEnv) (inv : Invocation) (l : Ledger) (ix : BridgeInstruction)
    (l' : Ledger) : Prop where
  | found {a rest st st'} (accounts : inv.accounts = a :: rest) (step : StateStep env ix st st')
      (rewrites : Rewrites inv l l' a.key st st')
  | created {params st} (isInit : ix = .initializeBridge params)
      (unused : l (env.bridgePda DOGE_BRIDGE_PROGRAM_ID) = ⟨SYSTEM_PROGRAM_ID, []⟩)
      (rewrites : Rewrites inv
        (Function.update l (env.bridgePda DOGE_BRIDGE_PROGRAM_ID)
          ⟨DOGE_BRIDGE_PROGRAM_ID, List.replicate BridgeState.pod.size 0⟩) l'
        (env.bridgePda DOGE_BRIDGE_PROGRAM_ID) st
        ⟨PsyBridgeProgramState.initialized params, params.dogeMint⟩)

theorem lock_elsewhere {buffer authority : AccountInfo} {tag : UInt8} {flag : Bool} {b : Borrows}
    {r : Ledger × List Effect}
    (h : CalledIf env inv flag b (lockerCall env inv tag buffer authority) l r)
    (hk : buffer.key ≠ k) : r.1 k = l k := by
  unfold CalledIf at h
  split at h
  · obtain ⟨storage, rest, ha, d, d', hw, -⟩ := bufferCall_effect rfl h.1.2.2.2
    cases ha
    rw [hw.eq, Function.update_of_ne (Ne.symm hk)]
  · rw [h]

theorem blockUpdated_effected {fixed : BlockUpdateFixedData} {mintBump txoBump : UInt8}
    (hg : Guarded env.platform) (hp : inv.programId = DOGE_BRIDGE_PROGRAM_ID)
    (h : BlockUpdated env inv l fixed extra mintBump txoBump isReorg l' es)
    (step : ∀ (l : Ledger) st core a m t, runTransition env l st fixed.proof fixed.header extra a m
      t isReorg = .ok core → StateStep env ix st { st with coreState := core }) :
    Effected env inv l ix l' := by
  obtain ⟨ha, -, -, -, -, hlock, hr, -, ⟨hd, -⟩, hrun, hw, hu⟩ := h
  have hsame := lock_elsewhere hlock hd
  have hrw := rewrites_of_writeState hp hr hw (calledIf_untouched hg hu)
  refine .found ha (step _ _ _ _ _ _ hrun) ⟨?_, ?_, ?_⟩
  · rw [← hsame]
    exact hr
  · rw [← hsame]
    exact hrw.write
  · exact (Untouched.setData (calledIf_untouched hg hlock) hsame).trans hrw.rest

/-- Every accepted instruction is a step of the state in its first account. -/
theorem Accepted.effected (hg : Guarded env.platform) (hp : inv.programId = DOGE_BRIDGE_PROGRAM_ID)
    (h : Accepted env inv l ix l' es) :
    Effected env inv l ix l' := by
  cases h with
  | @initializeBridge params a payer sys rest st l₁ _ _ ha hpda hc hr hw =>
    unfold createIfEmpty at hc
    rw [hp] at hpda
    split at hc
    · simp only [bind_ok, ensure_ok, exists_const, createDerived_ok, pure_ok, Prod.mk.injEq] at hc
      obtain ⟨-, l₂, ⟨-, -, -, ⟨ho, hd⟩, rfl⟩, rfl, -⟩ := hc
      rw [hp, ← hpda] at hr hw
      refine .created rfl ?_ (rewrites_of_writeState hp hr hw (.refl _ _))
      rw [hpda, ← ho, ← hd]
    · simp only [pure_ok, Prod.mk.injEq] at hc
      obtain ⟨rfl, -⟩ := hc
      exact .found ha (.initializeBridge _ _) (rewrites_of_writeState hp hr hw (.refl _ _))
  | blockUpdate run =>
    exact blockUpdated_effected hg hp run fun l st core a m t hrun =>
      .blockUpdate (runTransition_single.mp hrun)
  | processReorgBlocks run =>
    exact blockUpdated_effected hg hp run fun l st core a m t hrun =>
      .processReorgBlocks (runTransition_reorg.mp hrun)
  | requestWithdrawal ha hr hrun hw hb =>
    exact .found ha (.requestWithdrawal hrun)
      (rewrites_of_writeState hp hr hw (callee_untouched hg hb.2.2.2))
  | processWithdrawal ha _ _ hr _ _ hrun hw hm =>
    obtain ⟨rest, ha⟩ := ha
    exact .found ha (.processWithdrawal hrun)
      (rewrites_of_writeState hp hr hw (posted_untouched hg hm))
  | operatorWithdrawFees ha _ hr _ _ hrun hw hm =>
    exact .found ha (.operatorWithdrawFees hrun)
      (rewrites_of_writeState hp hr hw (callee_untouched hg hm.2.2.2))
  | processManualDeposit ha _ _ hr hrun hw hm =>
    exact .found ha (.processManualDeposit hrun)
      (rewrites_of_writeState hp hr hw (callee_untouched hg hm.2.2.2))
  | replayWithdrawal ha _ _ hr _ _ _ _ _ hrun hw hm =>
    obtain ⟨rest, ha⟩ := ha
    exact .found ha (.replayWithdrawal hrun)
      (rewrites_of_writeState hp hr hw (posted_untouched hg hm))
  | processMintGroup ha _ hr _ _ _ hrun _ hw hm =>
    exact .found ha (.processMintGroup (runAutoMintGroupPrecheck_ok.mp hrun))
      (rewrites_of_writeState hp hr hw (groupMinted_untouched hg hm))
  | @processMintGroupAutoAdvance _ _ _ _ _ _ _ _ _ _ _ _ _ _ _ jit _ _ _ _ _ _ ha _ hr _ hs _ hrun
      _ hw hm =>
    have hrw := rewrites_of_writeState hp hr hw (groupMinted_untouched hg hm)
    have hrun := runAutoMintGroupPrecheck_ok.mp hrun
    cases jit with
    | true =>
      exact .found ha (.processMintGroupAutoAdvance
        (.inr ⟨_, _, _, (advanceIf_true.mp hs).2.2.2⟩) hrun) hrw
    | false =>
      exact .found ha (.processMintGroupAutoAdvance (.inl (advanceIf_false.mp hs)) hrun) hrw
  | snapshotWithdrawals ha _ _ hr _ hw =>
    exact .found ha .snapshotWithdrawals (rewrites_of_writeState hp hr hw (.refl _ _))

theorem Accepted.initialize_first {params : InitializeBridgeInstructionData}
    (h : Accepted env inv l (.initializeBridge params) l' es) :
    ∃ a rest, inv.accounts = a :: rest ∧ env.bridgePda inv.programId = a.key := by
  cases h with
  | initializeBridge ha hpda => exact ⟨_, _, ha, hpda⟩

theorem Accepted.first (hg : Guarded env.platform) (hp : inv.programId = DOGE_BRIDGE_PROGRAM_ID)
    (h : Accepted env inv l ix l' es) :
    ∃ a rest, inv.accounts = a :: rest := by
  cases Accepted.effected hg hp h with
  | found accounts => exact ⟨_, _, accounts⟩
  | created isInit =>
    subst isInit
    obtain ⟨a, rest, accounts, -⟩ := Accepted.initialize_first h
    exact ⟨a, rest, accounts⟩

end States

section Runs

def BridgeEnv.pda (env : BridgeEnv) : Pubkey := env.bridgePda DOGE_BRIDGE_PROGRAM_ID

structure BridgeCall where
  inv : Invocation
  ix : BridgeInstruction
  effects : List Effect
  before : Ledger
  after : Ledger

def onAccount (inv : Invocation) (k : Pubkey) : Prop :=
  ∃ a rest, inv.accounts = a :: rest ∧ a.key = k

def BridgeCall.on (call : BridgeCall) (k : Pubkey) : Prop := onAccount call.inv k

inductive Event where
  | bridge (call : BridgeCall)
  | buffer (inv : Invocation) (data : Bytes)
  | other

def ofBridgeOrBuffer (k : Pubkey) : Prop :=
  k = DOGE_BRIDGE_PROGRAM_ID ∨ k = PENDING_MINT_BUFFER_BUILDER_PROGRAM_ID

/-- Anybody calls the bridge or the mint buffer program with any accounts and signers, except
that nobody signs for the bridge's own address; everything else on the chain, rejected
instructions included, leaves the accounts of both programs alone. -/
inductive Step (env : BridgeEnv) : Ledger → Event → Ledger → Prop where
  | bridge {inv : Invocation} {data ix} {es : List Effect} {l l' : Ledger}
      (program : inv.programId = DOGE_BRIDGE_PROGRAM_ID)
      (decoded : unpack data = .ok ix) (ran : processInstruction env inv l data = .ok (l', es)) :
      Step env l (.bridge ⟨inv, ix, es, l, l'⟩) l'
  | buffer {inv : Invocation} {data} {l l' : Ledger}
      (program : inv.programId = PENDING_MINT_BUFFER_BUILDER_PROGRAM_ID)
      (unsigned : ¬ inv.signs (BridgeEnv.pda env))
      (ran : PendingMintBuffer.processInstruction env.platform env.crypto inv l data = .ok l') :
      Step env l (.buffer inv data) l'
  | other {l l' : Ledger} (rest : Untouched ofBridgeOrBuffer l l') : Step env l .other l'

variable {e : Event} {st : BridgeState}

variable {call : BridgeCall} {st' : BridgeState}

theorem Step.accepted (h : Step env l (.bridge call) l') :
    call.before = l ∧ call.after = l' ∧ call.inv.programId = DOGE_BRIDGE_PROGRAM_ID ∧
      Accepted env call.inv l call.ix l' call.effects := by
  cases h with
  | bridge program decoded ran =>
    obtain ⟨ix, hix, ha⟩ := processInstruction_ok.mp ran
    rw [decoded] at hix
    cases hix
    exact ⟨rfl, rfl, program, ha⟩

def Holds (env : BridgeEnv) (l : Ledger) (st : BridgeState) : Prop :=
  l (BridgeEnv.pda env) = ⟨DOGE_BRIDGE_PROGRAM_ID, BridgeState.pod.encode st⟩

theorem Holds.unique (h : Holds env l st) (h' : Holds env l st') :
    st = st' := by
  unfold Holds at h h'
  rw [h] at h'
  exact BridgeState.pod.encode_injective (Account.mk.inj h').2

theorem Untouched.holds (h : Untouched ofBridge l l') (hs : Holds env l st) : Holds env l' st := by
  unfold Holds at hs ⊢
  rw [h.kept _ (by rw [hs]; rfl), hs]

theorem Rewrites.holds {k : Pubkey} {st₀ : BridgeState} (h : Rewrites inv l l' k st₀ st')
    (hs : Holds env l st) :
    (k = BridgeEnv.pda env ∧ st₀ = st ∧ Holds env l' st') ∨
      (k ≠ BridgeEnv.pda env ∧ Holds env l' st) := by
  by_cases hk : k = BridgeEnv.pda env
  · subst hk
    have hst : st₀ = st := by
      apply BridgeState.pod.encode_injective
      rw [← h.read, hs]
    refine .inl ⟨rfl, hst, Untouched.holds h.rest ?_⟩
    unfold Holds at hs ⊢
    rw [setData_self, hs]
  · refine .inr ⟨hk, Untouched.holds h.rest ?_⟩
    unfold Holds at hs ⊢
    rw [setData_of_ne (Ne.symm hk), hs]

/-- Every step keeps the state or is an accepted instruction on it. -/
theorem Step.holds (hg : Guarded env.platform) (h : Step env l e l') (hs : Holds env l st) :
    ∃ st', Holds env l' st' ∧ (st' = st ∨
      ∃ call, e = .bridge call ∧ call.on (BridgeEnv.pda env) ∧ StateStep env call.ix st st') := by
  cases h with
  | bridge program decoded ran =>
    obtain ⟨-, -, -, ha⟩ := Step.accepted (.bridge program decoded ran)
    cases Accepted.effected hg program ha with
    | found hacc hstep hrw =>
      rcases Rewrites.holds hrw hs with ⟨hk, rfl, hs'⟩ | ⟨-, hs'⟩
      · exact ⟨_, hs', .inr ⟨_, rfl, ⟨_, _, hacc, hk⟩, hstep⟩⟩
      · exact ⟨st, hs', .inl rfl⟩
    | created _ unused _ =>
      have ho := (congrArg Account.owner unused).symm.trans (congrArg Account.owner hs)
      exact absurd ho system_ne_bridge
  | buffer program _ ran =>
    obtain ⟨_, _, -, he⟩ := BufferSteps.processInstruction_effect ran
    exact ⟨st, Untouched.holds (bufferEffect_untouched program he) hs, .inl rfl⟩
  | other rest => exact ⟨st, Untouched.holds (rest.weaken fun _ => .inl) hs, .inl rfl⟩

theorem Step.initialized {params : InitializeBridgeInstructionData} (hg : Guarded env.platform)
    (h : Step env l (.bridge call) l') (hix : call.ix = .initializeBridge params)
    (hnew : (l (BridgeEnv.pda env)).data = []) :
    Holds env l' ⟨PsyBridgeProgramState.initialized params, params.dogeMint⟩ := by
  obtain ⟨-, -, hp, ha⟩ := h.accepted
  rw [hix] at ha
  obtain ⟨a, rest, hacc, hpda⟩ := Accepted.initialize_first ha
  rw [hp] at hpda
  cases Accepted.effected hg hp ha with
  | found hacc' _ hrw =>
    rw [hacc] at hacc'
    cases hacc'
    have hlen := congrArg List.length hrw.read
    rw [← hpda, show (l (env.bridgePda DOGE_BRIDGE_PROGRAM_ID)).data = [] from hnew,
      Pod.encode_length] at hlen
    cases hlen
  | created hinit _ hrw =>
    cases hinit
    refine Untouched.holds hrw.rest ?_
    unfold Holds BridgeEnv.pda
    rw [setData_self, Function.update_self]

def isInitialize : Event → Prop
  | .bridge { ix := .initializeBridge _, .. } => True
  | _ => False

end Runs

end BridgeSystem
