import PsyDogeBridge.BridgeProcessor
import PsyDogeBridge.BufferSteps

/-! What it means that the bridge accepts an instruction, as a relation with one case for each
instruction. Every later result starts from these cases and not from the code. -/
namespace AcceptedInstructions

open PodLayout CheckedSteps SolanaRuntime BridgeData AppendTree MintGroups ProgramState
  BlockTransition BridgeCalls BridgeProcessor

variable {env : BridgeEnv} {inv : Invocation} {l l' : Ledger} {es : List Effect}

section Parts

variable {k : Pubkey} {st : BridgeState} {c : Cpi} {b : Borrows} {authority : AccountInfo}
  {flag : Bool} {r : Ledger × List Effect}

theorem readState_ok :
    readState l k = .ok st ↔ (l k).data = BridgeState.pod.encode st := by
  rw [readState, orFail_ok, Pod.read_eq_some]

theorem writeState_ok :
    writeState inv l k st = .ok l' ↔
      ((l k).data = BridgeState.pod.encode st ∨ (l k).owner = inv.programId ∧ inv.writes k) ∧
      l' = l.setData k (BridgeState.pod.encode st) := writeData_ok

def Called (env : BridgeEnv) (inv : Invocation) (b : Borrows) (c : Cpi) (l l' : Ledger) : Prop :=
  (env.platform.checksBorrows → ∀ m ∈ c.accounts, b.permit m) ∧ inv.lists c.programId ∧
    (∀ m ∈ c.accounts, inv.grants c m) ∧ callee env inv c l = some l'

theorem invoke_called {ε : Type} :
    inv.invoke (ε := ε) env.platform b c (callee env inv) l = .ok l' ↔
      Called env inv b c l l' := invoke_ok

theorem mintTo_ok {mint : AccountInfo} {recipients : List AccountInfo} {i : ℕ}
    {account : Vector UInt8 32} {amount : UInt64} {r : Ledger × Cpi} :
    mintTo env inv b mint authority recipients i account amount l = .ok r ↔
      ∃ recipient, recipients[i]? = some recipient ∧ recipient.key = account ∧
        r.2 = mintToCall env inv mint recipient authority amount ∧
        Called env inv b r.2 l r.1 := by
  simp only [mintTo, bind_ok, orFail_ok, ensure_ok, exists_const, relabel_ok, pure_ok,
    invoke_called]
  constructor
  · rintro ⟨recipient, hr, hk, l₁, hl₁, rfl⟩
    exact ⟨recipient, hr, hk, rfl, hl₁⟩
  · rintro ⟨recipient, hr, hk, hc, hl₁⟩
    exact ⟨recipient, hr, hk, r.1, hc ▸ hl₁, Prod.ext rfl hc.symm⟩

def CalledIf (env : BridgeEnv) (inv : Invocation) (flag : Bool) (b : Borrows) (c : Cpi)
    (l : Ledger) (r : Ledger × List Effect) : Prop :=
  if flag then Called env inv b c l r.1 ∧ r.2 = [.call c] else r = (l, [])

theorem calledIf_effects (h : CalledIf env inv flag b c l r) :
    ∀ e ∈ r.2, e = .call c := by
  unfold CalledIf at h
  split at h
  · rw [h.2]
    simp
  · rw [h]
    simp

theorem mintRecords_effects {mint : AccountInfo} {recipients : List AccountInfo} {mem : Bytes}
    {start n p : ℕ}
    (h : mintRecords env inv b mint authority recipients mem start n p l = .ok (l', es)) :
    es.length = n ∧ ∀ e ∈ es, ∃ recipient amount,
      e.cpi = mintToCall env inv mint recipient authority amount := by
  induction n generalizing p l es with
  | zero =>
    cases h
    exact ⟨rfl, List.forall_mem_nil _⟩
  | succ n ih =>
    simp only [mintRecords, bind_ok, ensure_ok, exists_const, mintTo_ok, pure_ok, Prod.exists,
      Prod.mk.injEq] at h
    obtain ⟨-, l₁, c, ⟨recipient, -, -, hc, -⟩, l₂, es₂, hrest, rfl, rfl⟩ := h
    obtain ⟨hlen, hmints⟩ := ih hrest
    exact ⟨by rw [List.length_cons, hlen], List.forall_mem_cons.mpr ⟨⟨_, _, hc⟩, hmints⟩⟩

theorem lockerIf_ok {tag : UInt8} {e : DogeBridgeError} {buffer : AccountInfo} :
    lockerIf env inv l tag e flag buffer authority = .ok r ↔
      CalledIf env inv flag .none (lockerCall env inv tag buffer authority) l r := by
  unfold lockerIf lockerInvoke CalledIf
  split
  · simp only [bind_ok, relabel_ok, pure_ok, invoke_called]
    constructor
    · rintro ⟨p, ⟨l₁, hl₁, rfl⟩, rfl⟩
      exact ⟨hl₁, rfl⟩
    · rintro ⟨hl₁, he⟩
      exact ⟨_, ⟨r.1, hl₁, rfl⟩, Prod.ext rfl he.symm⟩
  · rw [pure_ok, eq_comm]

theorem postIf_ok :
    postIf env inv flag b c l = .ok r ↔ CalledIf env inv flag b c l r := by
  unfold postIf CalledIf
  split
  · simp only [bind_ok, pure_ok, invoke_called]
    constructor
    · rintro ⟨l₁, hl₁, rfl⟩
      exact ⟨hl₁, rfl⟩
    · rintro ⟨hl₁, he⟩
      exact ⟨r.1, hl₁, Prod.ext rfl he.symm⟩
  · rw [pure_ok, eq_comm]

end Parts

section Cases

/-- A claimed group: the buffer is locked first if the block has just become current, its
records are minted, and it is unlocked after the last group. -/
inductive GroupMinted (env : BridgeEnv) (inv : Invocation) (l : Ledger)
    (bridgeState mintBuffer dogeMint : AccountInfo) (recipients : List AccountInfo)
    (claim : GroupClaim) (lockFirst shouldUnlock : Bool) : Ledger → List Effect → Prop where
  | intro {l₁ l₂ l₃ locked minted unlocked}
      (count : claim.mintsCount.toNat = recipients.length)
      (lock : CalledIf env inv lockFirst .none (lockerCall env inv 4 mintBuffer bridgeState) l
        (l₁, locked))
      (mint : mintRecords env inv ⟨[], [mintBuffer.key]⟩ dogeMint bridgeState recipients
        (l₁ mintBuffer.key).data claim.startOffset claim.mintsCount.toNat 0 l₁ = .ok (l₂, minted))
      (small : ¬ (shouldUnlock = true ∧ lockFirst = true ∧
        claim.mintsCount > PM_MAX_PENDING_MINTS_PER_GROUP_U16))
      (unlock : CalledIf env inv shouldUnlock .none (lockerCall env inv 5 mintBuffer bridgeState) l₂
        (l₃, unlocked)) :
      GroupMinted env inv l bridgeState mintBuffer dogeMint recipients claim lockFirst shouldUnlock
        l₃ (locked ++ minted ++ unlocked)

variable {shouldUnlock : Bool} {bridgeState : AccountInfo} {mintBump txoBump : UInt8}
  {a : ShimAccounts} {groupIndex : UInt16}

theorem mintClaimedGroup_ok {mintBuffer dogeMint : AccountInfo} {recipients : List AccountInfo}
    {claim : GroupClaim} {lockFirst : Bool} :
    mintClaimedGroup env inv l bridgeState mintBuffer dogeMint recipients claim lockFirst
      shouldUnlock = .ok (l', es) ↔
    GroupMinted env inv l bridgeState mintBuffer dogeMint recipients claim lockFirst shouldUnlock
      l' es := by
  simp only [mintClaimedGroup, lockIf, unlockIf, bind_ok, ensure_ok, exists_const, lockerIf_ok,
    pure_ok, Prod.exists, Prod.mk.injEq]
  constructor
  · rintro ⟨hc, l₁, e₁, h₁, l₂, e₂, h₂, hs, l₃, e₃, h₃, rfl, rfl⟩
    exact .intro hc h₁ h₂ hs h₃
  · rintro ⟨hc, h₁, h₂, hs, h₃⟩
    exact ⟨hc, _, _, h₁, _, _, h₂, hs, _, _, h₃, rfl, rfl⟩

inductive BlockUpdated (env : BridgeEnv) (inv : Invocation) (l : Ledger)
    (fixed : BlockUpdateFixedData) (extra : List FinalizedBlockMintTxoInfo)
    (mintBump txoBump : UInt8) (isReorg : Bool) : Ledger → List Effect → Prop where
  | intro {bridgeState mintBuffer txoBuffer operator payer mintProgram txoProgram rest st core
      l₁ l₂ l₃ locked unlocked}
      (accounts : inv.accounts = bridgeState :: mintBuffer :: txoBuffer :: operator :: payer ::
        mintProgram :: txoProgram :: rest)
      (signed : operator.isSigner = true)
      (mintPda : env.platform.createProgramAddress [PendingMintBuffer.MINT_BUFFER_SEED,
        operator.key.toList, [mintBump]] PENDING_MINT_BUFFER_BUILDER_PROGRAM_ID =
        some mintBuffer.key)
      (txoPda : env.platform.createProgramAddress [TXO_BUFFER_SEED,
        operator.key.toList, [txoBump]] TXO_BUFFER_BUILDER_PROGRAM_ID = some txoBuffer.key)
      (mintOwner : (l mintBuffer.key).owner = PENDING_MINT_BUFFER_BUILDER_PROGRAM_ID)
      (lock : CalledIf env inv true .none (lockerCall env inv 4 mintBuffer bridgeState) l
        (l₁, locked))
      (read : (l₁ bridgeState.key).data = BridgeState.pod.encode st)
      (txoOwner : (l₁ txoBuffer.key).owner = TXO_BUFFER_BUILDER_PROGRAM_ID)
      (distinct : mintBuffer.key ≠ bridgeState.key ∧ txoBuffer.key ≠ bridgeState.key)
      (run : runTransition env l₁ st fixed.proof fixed.header extra bridgeState.key mintBuffer.key
        txoBuffer.key isReorg = .ok core)
      (write : writeState inv l₁ bridgeState.key { st with coreState := core } = .ok l₂)
      (unlock : CalledIf env inv
        (st.coreState.bridgeHeader.finalizedState.autoClaimedDepositsNextIndex =
          core.bridgeHeader.finalizedState.autoClaimedDepositsNextIndex) .none
        (lockerCall env inv 5 mintBuffer bridgeState) l₂ (l₃, unlocked)) :
      BlockUpdated env inv l fixed extra mintBump txoBump isReorg l₃ (locked ++ unlocked)

theorem runBlockUpdateCommon_ok {fixed : BlockUpdateFixedData}
    {extra : List FinalizedBlockMintTxoInfo} {isReorg : Bool} :
    runBlockUpdateCommon env inv l fixed.proof fixed.header extra mintBump txoBump isReorg =
      .ok (l', es) ↔ BlockUpdated env inv l fixed extra mintBump txoBump isReorg l' es := by
  constructor
  · intro h
    unfold runBlockUpdateCommon at h
    split at h
    · next ha =>
      simp only [lockIf, unlockIf, bind_ok, ensure_ok, exists_const, orFail_ok, lockerIf_ok,
        readState_ok, pure_ok, Prod.exists, Prod.mk.injEq] at h
      obtain ⟨hs, _, hm, rfl, _, ht, rfl, ho, l₁, e₁, h₁, st, hr, hto, hd, core, hc, l₂, hw, l₃,
        e₃, h₃, rfl, rfl⟩ := h
      exact .intro ha hs hm ht ho h₁ hr hto hd hc hw h₃
    · cases h
  · rintro ⟨ha, hs, hm, ht, ho, h₁, hr, hto, hd, hc, hw, h₃⟩
    simp only [runBlockUpdateCommon, ha, lockIf, unlockIf, bind_ok, ensure_ok, exists_const,
      orFail_ok, lockerIf_ok, readState_ok, pure_ok, Prod.exists, Prod.mk.injEq]
    exact ⟨hs, _, hm, rfl, _, ht, rfl, ho, _, _, h₁, _, hr, hto, hd, _, hc, _, hw, _, _, h₃, rfl,
      rfl⟩

inductive Posted (env : BridgeEnv) (inv : Invocation) (b : Borrows) (c : Cpi) (l : Ledger) :
    Ledger → List Effect → Prop where
  | intro {l₁ l₂ first second}
      (wormhole : CalledIf env inv env.features.wormhole b c l (l₁, first))
      (noopshim : CalledIf env inv env.features.noopshim b c l₁ (l₂, second)) :
      Posted env inv b c l l₂ (first ++ second)

theorem sendWormholeVaa_ok {b : Borrows} {nonce : UInt32} {emitter : AccountInfo}
    {sighash tx : Bytes} :
    sendWormholeVaa env inv b nonce a emitter sighash tx l = .ok (l', es) ↔
      Posted env inv b (vaaCall env inv nonce a emitter sighash tx) l l' es := by
  simp only [sendWormholeVaa, bind_ok, postIf_ok, pure_ok, Prod.exists, Prod.mk.injEq]
  constructor
  · rintro ⟨l₁, e₁, h₁, l₂, e₂, h₂, rfl, rfl⟩
    exact .intro h₁ h₂
  · rintro ⟨h₁, h₂⟩
    exact ⟨_, _, h₁, _, _, h₂, rfl, rfl⟩

def ShimListed (accounts : List AccountInfo) (bridgeState dogeTxBuffer : AccountInfo)
    (a : ShimAccounts) : Prop :=
  ∃ rest, accounts = bridgeState :: dogeTxBuffer :: a.shimProgram :: a.bridgeConfig :: a.message ::
    a.sequence :: a.payer :: a.feeCollector :: a.clock :: a.systemProgram ::
    a.coreBridgeProgram :: a.eventAuthority :: rest

theorem shimAccounts_ok {accounts : List AccountInfo} {dogeTxBuffer : AccountInfo} :
    shimAccounts accounts = .ok (bridgeState, dogeTxBuffer, a) ↔
      ShimListed accounts bridgeState dogeTxBuffer a := by
  constructor
  · intro h
    unfold shimAccounts at h
    split at h
    · simp only [Except.ok.injEq, Prod.mk.injEq] at h
      obtain ⟨rfl, rfl, rfl⟩ := h
      exact ⟨_, rfl⟩
    · cases h
  · rintro ⟨rest, rfl⟩
    rfl

def nonce (core : PsyBridgeProgramState) : UInt32 :=
  (core.nextProcessedWithdrawalsIndex &&& 0xFFFFFFFF).toUInt32

def replayTime (inv : Invocation) (core : PsyBridgeProgramState) : UInt32 :=
  if core.lastProcessedWithdrawalsAtMs = (currentTimestamp inv).toUInt64 then
    currentTimestamp inv + 1
  else currentTimestamp inv

def replayProofSize : ℕ := FixedMerkleAppendTreePartialMerkleProof.pod.size

inductive Accepted (env : BridgeEnv) (inv : Invocation) (l : Ledger) :
    BridgeInstruction → Ledger → List Effect → Prop where
  | initializeBridge {params bridgeState payer systemProgram rest st l₁ l₂ es}
      (accounts : inv.accounts = bridgeState :: payer :: systemProgram :: rest)
      (pda : env.bridgePda inv.programId = bridgeState.key)
      (create : createIfEmpty env inv l bridgeState payer = .ok (l₁, es))
      (read : (l₁ bridgeState.key).data = BridgeState.pod.encode st)
      (write : writeState inv l₁ bridgeState.key
        ⟨PsyBridgeProgramState.initialized params, params.dogeMint⟩ = .ok l₂) :
      Accepted env inv l (.initializeBridge params) l₂ es
  | blockUpdate {fixed mintBump txoBump l₁ es}
      (run : BlockUpdated env inv l fixed [] mintBump txoBump false l₁ es) :
      Accepted env inv l (.blockUpdate fixed mintBump txoBump) l₁ es
  | processReorgBlocks {fixed extra mintBump txoBump l₁ es}
      (run : BlockUpdated env inv l fixed extra mintBump txoBump true l₁ es) :
      Accepted env inv l (.processReorgBlocks fixed extra mintBump txoBump) l₁ es
  | requestWithdrawal {request bridgeState userTokenAccount dogeMint userAuthority tokenProgram
      rest st core l₁ l₂}
      (accounts : inv.accounts = bridgeState :: userTokenAccount :: dogeMint :: userAuthority ::
        tokenProgram :: rest)
      (read : (l bridgeState.key).data = BridgeState.pod.encode st)
      (run : st.coreState.processRequestWithdrawal env.crypto request.addressType
        request.recipientAddress request.amountSats = some core)
      (write : writeState inv l bridgeState.key { st with coreState := core } = .ok l₁)
      (burn : Called env inv ⟨[bridgeState.key], []⟩
        (burnCall userTokenAccount dogeMint userAuthority request.amountSats) l₁ l₂) :
      Accepted env inv l (.requestWithdrawal request) l₂
        [.call (burnCall userTokenAccount dogeMint userAuthority request.amountSats)]
  | processWithdrawal {params bridgeState dogeTxBuffer shim st core sighash l₁ l₂ es}
      (accounts : ShimListed inv.accounts bridgeState dogeTxBuffer shim)
      (pda : bridgeState.key = env.bridgePda inv.programId)
      (txOwner : (l dogeTxBuffer.key).owner = GENERIC_BUFFER_BUILDER_PROGRAM_ID)
      (read : (l bridgeState.key).data = BridgeState.pod.encode st)
      (distinct : dogeTxBuffer.key ≠ bridgeState.key)
      (long : 32 ≤ (l dogeTxBuffer.key).data.length)
      (run : st.coreState.runProcessBridgeWithdrawal env.crypto params.proof.toList
        (WITHDRAWAL_VK env.features).toList ((l dogeTxBuffer.key).data.drop 32)
        params.newReturnOutput params.newSpentTxoTreeRoot
        params.newNextProcessedWithdrawalsIndex = .ok (core, sighash))
      (write : writeState inv l bridgeState.key { st with coreState := core } = .ok l₁)
      (post : Posted env inv ⟨[], [dogeTxBuffer.key]⟩ (vaaCall env inv (nonce core) shim bridgeState
        sighash.toList ((l dogeTxBuffer.key).data.drop 32)) l₁ l₂ es) :
      Accepted env inv l (.processWithdrawal params) l₂ es
  | operatorWithdrawFees {bridgeState operatorTokenAccount dogeMint operator tokenProgram rest st
      core fees l₁ l₂}
      (accounts : inv.accounts = bridgeState :: operatorTokenAccount :: dogeMint :: operator ::
        tokenProgram :: rest)
      (signed : operator.isSigner = true)
      (read : (l bridgeState.key).data = BridgeState.pod.encode st)
      (mint : dogeMint.key = st.dogeMint)
      (isOperator : operator.key = st.coreState.accessControl.operatorPubkey)
      (run : st.coreState.runBridgeOperatorWithdrawFeesPrecheck = .ok (core, fees))
      (write : writeState inv l bridgeState.key { st with coreState := core } = .ok l₁)
      (mintFees : Called env inv .none
        (mintToCall env inv dogeMint operatorTokenAccount bridgeState fees) l₁ l₂) :
      Accepted env inv l .operatorWithdrawFees l₂
        [.call (mintToCall env inv dogeMint operatorTokenAccount bridgeState fees)]
  | processManualDeposit {params bridgeState recipient dogeMint tokenProgram claimSigner rest st
      core amount l₁ l₂}
      (accounts : inv.accounts = bridgeState :: recipient :: dogeMint :: tokenProgram ::
        claimSigner :: rest)
      (signed : claimSigner.isSigner = true)
      (claimPda : claimSigner.key = (env.platform.findProgramAddress [MANUAL_CLAIM_SEED,
        params.depositorSolanaPublicKey.toList] MANUAL_CLAIM_PROGRAM_ID).1)
      (read : (l bridgeState.key).data = BridgeState.pod.encode st)
      (run : st.coreState.processManualClaimedDeposit env.crypto params.txHash
        params.recentBlockMerkleTreeRoot params.recentAutoClaimTxoRoot params.combinedTxoIndex
        recipient.key params.depositAmountSats = .ok (core, amount))
      (write : writeState inv l bridgeState.key { st with coreState := core } = .ok l₁)
      (mintDeposit : Called env inv .none (mintToCall env inv dogeMint recipient bridgeState amount)
        l₁ l₂) :
      Accepted env inv l (.processManualDeposit params) l₂
        [.call (mintToCall env inv dogeMint recipient bridgeState amount)]
  | replayWithdrawal {bridgeState dogeTxBuffer shim st proof sighash core l₁ l₂ es}
      (accounts : ShimListed inv.accounts bridgeState dogeTxBuffer shim)
      (pda : bridgeState.key = env.bridgePda inv.programId)
      (txOwner : (l dogeTxBuffer.key).owner = GENERIC_BUFFER_BUILDER_PROGRAM_ID)
      (read : (l bridgeState.key).data = BridgeState.pod.encode st)
      (distinct : dogeTxBuffer.key ≠ bridgeState.key)
      (long : 32 + replayProofSize + 10 ≤ (l dogeTxBuffer.key).data.length)
      (proofRead : proof = FixedMerkleAppendTreePartialMerkleProof.pod.decode
        (slice (l dogeTxBuffer.key).data 32 replayProofSize))
      (hash : sighash = env.crypto.sha256 (env.crypto.sha256
        ((l dogeTxBuffer.key).data.drop (32 + replayProofSize))).toList)
      (value : proof.value = sighash)
      (run : st.coreState.processReplayWithdrawalProof env.crypto proof
        (replayTime inv st.coreState) = .ok (some core))
      (write : writeState inv l bridgeState.key { st with coreState := core } = .ok l₁)
      (post : Posted env inv ⟨[], [dogeTxBuffer.key]⟩ (vaaCall env inv (nonce core) shim bridgeState
        sighash.toList ((l dogeTxBuffer.key).data.drop (32 + replayProofSize))) l₁ l₂ es) :
      Accepted env inv l .replayWithdrawal l₂ es
  | processMintGroup {groupIndex bump shouldUnlock bridgeState mintBuffer operator dogeMint payer
      mintProgram tokenProgram recipients st core claim l₁ l₂ es}
      (accounts : inv.accounts = bridgeState :: mintBuffer :: operator :: dogeMint :: payer ::
        mintProgram :: tokenProgram :: recipients)
      (signed : operator.isSigner = true)
      (read : (l bridgeState.key).data = BridgeState.pod.encode st)
      (buffer : mintBuffer.key = st.coreState.tracker.lastFinalizedAutoClaimMintsStorageAccount)
      (mint : dogeMint.key = st.dogeMint)
      (isOperator : operator.key = st.coreState.accessControl.operatorPubkey)
      (run : runAutoMintGroupPrecheck st.coreState groupIndex mintBuffer.key = .ok (core, claim))
      (agree : claim.canUnlock = shouldUnlock)
      (write : writeState inv l bridgeState.key { st with coreState := core } = .ok l₁)
      (minted : GroupMinted env inv l₁ bridgeState mintBuffer dogeMint recipients claim false
        shouldUnlock l₂ es) :
      Accepted env inv l (.processMintGroup groupIndex bump shouldUnlock) l₂ es
  | processMintGroupAutoAdvance {groupIndex mintBump txoBump shouldUnlock bridgeState mintBuffer
      txoBuffer operator dogeMint payer mintProgram txoProgram tokenProgram recipients st jit core₁
      core claim l₁ l₂ es}
      (accounts : inv.accounts = bridgeState :: mintBuffer :: txoBuffer :: operator :: dogeMint ::
        payer :: mintProgram :: txoProgram :: tokenProgram :: recipients)
      (signed : operator.isSigner = true)
      (read : (l bridgeState.key).data = BridgeState.pod.encode st)
      (advance : jit = (st.coreState.tracker.isEmpty &&
        !st.coreState.pendingMintTxos.isEmpty))
      (setup : advanceIf env l jit st bridgeState.key mintBuffer.key txoBuffer.key operator.key
        txoBump = .ok core₁)
      (buffer : mintBuffer.key = core₁.tracker.lastFinalizedAutoClaimMintsStorageAccount)
      (run : runAutoMintGroupPrecheck core₁ groupIndex mintBuffer.key = .ok (core, claim))
      (agree : claim.canUnlock = shouldUnlock)
      (write : writeState inv l bridgeState.key { st with coreState := core } = .ok l₁)
      (minted : GroupMinted env inv l₁ bridgeState mintBuffer dogeMint recipients claim jit
        shouldUnlock l₂ es) :
      Accepted env inv l (.processMintGroupAutoAdvance groupIndex mintBump txoBump shouldUnlock)
        l₂ es
  | snapshotWithdrawals {bridgeState operator payer rest st l₁}
      (accounts : inv.accounts = bridgeState :: operator :: payer :: rest)
      (signed : operator.isSigner = true)
      (pda : env.bridgePda inv.programId = bridgeState.key)
      (read : (l bridgeState.key).data = BridgeState.pod.encode st)
      (isOperator : st.coreState.accessControl.operatorPubkey = operator.key)
      (write : writeState inv l bridgeState.key
        { st with coreState := st.coreState.snapshotForWithdrawal (currentTimestamp inv) } =
        .ok l₁) :
      Accepted env inv l .snapshotWithdrawals l₁ []

theorem processRequestWithdrawal_ok {request : PsyWithdrawalRequest} :
    processRequestWithdrawal env inv l request = .ok (l', es) ↔
      Accepted env inv l (.requestWithdrawal request) l' es := by
  constructor
  · intro h
    unfold processRequestWithdrawal at h
    split at h
    · next ha =>
      simp only [burnFrom, bind_ok, orFail_ok, readState_ok, relabel_ok, invoke_called, pure_ok,
        Prod.exists, Prod.mk.injEq] at h
      obtain ⟨st, hr, core, hc, l₁, hw, _, _, ⟨l₂, hb, rfl, rfl⟩, rfl, rfl⟩ := h
      exact .requestWithdrawal ha hr hc hw hb
    · cases h
  · intro h
    cases h with
    | requestWithdrawal ha hr hc hw hb =>
      simp only [processRequestWithdrawal, ha, burnFrom, bind_ok, orFail_ok, readState_ok,
        relabel_ok, invoke_called, pure_ok, Prod.exists, Prod.mk.injEq]
      exact ⟨_, hr, _, hc, _, hw, _, _, ⟨_, hb, rfl, rfl⟩, rfl, rfl⟩

theorem processInitialize_ok {params : InitializeBridgeInstructionData} :
    processInitialize env inv l params = .ok (l', es) ↔
      Accepted env inv l (.initializeBridge params) l' es := by
  constructor
  · intro h
    unfold processInitialize at h
    split at h
    · next ha =>
      simp only [bind_ok, ensure_ok, exists_const, readState_ok, pure_ok, Prod.exists,
        Prod.mk.injEq] at h
      obtain ⟨hp, l₁, e₁, hc, st, hr, l₂, hw, rfl, rfl⟩ := h
      exact .initializeBridge ha hp hc hr hw
    · cases h
  · intro h
    cases h with
    | initializeBridge ha hp hc hr hw =>
      simp only [processInitialize, ha, bind_ok, ensure_ok, exists_const, readState_ok, pure_ok,
        Prod.exists, Prod.mk.injEq]
      exact ⟨hp, _, _, hc, _, hr, _, hw, rfl, rfl⟩

theorem processProcessWithdrawal_ok {params : ProcessWithdrawalInstructionData} :
    processProcessWithdrawal env inv l params = .ok (l', es) ↔
      Accepted env inv l (.processWithdrawal params) l' es := by
  simp only [processProcessWithdrawal, bind_ok, shimAccounts_ok, ensure_ok, exists_const,
    readState_ok, sendWormholeVaa_ok, Prod.exists]
  constructor
  · rintro ⟨a, b, s, ha, hp, ho, st, hr, hd, hl, core, sig, hc, l₁, hw, hm⟩
    exact .processWithdrawal ha hp ho hr hd hl hc hw hm
  · intro h
    cases h with
    | processWithdrawal ha hp ho hr hd hl hc hw hm =>
      exact ⟨_, _, _, ha, hp, ho, _, hr, hd, hl, _, _, hc, _, hw, hm⟩

theorem processOperatorWithdrawFees_ok :
    processOperatorWithdrawFees env inv l = .ok (l', es) ↔
      Accepted env inv l .operatorWithdrawFees l' es := by
  constructor
  · intro h
    unfold processOperatorWithdrawFees at h
    split at h
    · next ha =>
      simp only [bind_ok, ensure_ok, exists_const, readState_ok, mintTo_ok, pure_ok, Prod.exists,
        Prod.mk.injEq] at h
      obtain ⟨hs, st, hr, hm, ho, core, fees, hc, l₁, hw, l₂, c, ⟨a, hi, -, rfl, hcall⟩,
        rfl, rfl⟩ :=
        h
      cases hi
      exact .operatorWithdrawFees ha hs hr hm ho hc hw hcall
    · cases h
  · intro h
    cases h with
    | operatorWithdrawFees ha hs hr hm ho hc hw hcall =>
      simp only [processOperatorWithdrawFees, ha, bind_ok, ensure_ok, exists_const, readState_ok,
        mintTo_ok, pure_ok, Prod.exists, Prod.mk.injEq]
      exact ⟨hs, _, hr, hm, ho, _, _, hc, _, hw, _, _, ⟨_, rfl, rfl, rfl, hcall⟩, rfl, rfl⟩

theorem processProcessManualDeposit_ok {params : ProcessManualDepositInstructionData} :
    processProcessManualDeposit env inv l params = .ok (l', es) ↔
      Accepted env inv l (.processManualDeposit params) l' es := by
  constructor
  · intro h
    unfold processProcessManualDeposit at h
    split at h
    · next ha =>
      simp only [verifyLowestPda, bind_ok, ensure_ok, exists_const, readState_ok, mintTo_ok,
        pure_ok, Prod.exists, Prod.mk.injEq] at h
      obtain ⟨hs, hp, st, hr, core, amount, hc, l₁, hw, l₂, c, ⟨a, hi, -, rfl, hcall⟩, rfl, rfl⟩ :=
        h
      cases hi
      exact .processManualDeposit ha hs hp hr hc hw hcall
    · cases h
  · intro h
    cases h with
    | processManualDeposit ha hs hp hr hc hw hcall =>
      simp only [processProcessManualDeposit, ha, verifyLowestPda, bind_ok, ensure_ok,
        exists_const, readState_ok, mintTo_ok, pure_ok, Prod.exists, Prod.mk.injEq]
      exact ⟨hs, hp, _, hr, _, _, hc, _, hw, _, _, ⟨_, rfl, rfl, rfl, hcall⟩, rfl, rfl⟩

theorem processReplayWithdrawal_ok :
    processReplayWithdrawal env inv l = .ok (l', es) ↔
      Accepted env inv l .replayWithdrawal l' es := by
  simp only [processReplayWithdrawal, bind_ok, shimAccounts_ok, ensure_ok, exists_const,
    readState_ok, sendWormholeVaa_ok, orFail_ok, Prod.exists]
  constructor
  · rintro ⟨a, b, s, ha, hp, ho, st, hr, hd, hl, hv, r, hrun, core, rfl, l₁, hw, hm⟩
    exact .replayWithdrawal ha hp ho hr hd hl rfl rfl hv hrun hw hm
  · intro h
    cases h with
    | replayWithdrawal ha hp ho hr hd hl hpr hsig hv hrun hw hm =>
      subst hpr hsig
      exact ⟨_, _, _, ha, hp, ho, _, hr, hd, hl, hv, _, hrun, _, rfl, _, hw, hm⟩

theorem processMintGroup_ok {bump : UInt8} :
    processMintGroup env inv l groupIndex shouldUnlock = .ok (l', es) ↔
      Accepted env inv l (.processMintGroup groupIndex bump shouldUnlock) l' es := by
  constructor
  · intro h
    unfold processMintGroup at h
    split at h
    · next ha =>
      simp only [bind_ok, ensure_ok, exists_const, readState_ok, mintClaimedGroup_ok,
        Prod.exists] at h
      obtain ⟨hs, st, hr, hb, hm, ho, core, claim, hc, hu, l₁, hw, hg⟩ := h
      exact .processMintGroup ha hs hr hb hm ho hc hu hw hg
    · cases h
  · intro h
    cases h with
    | processMintGroup ha hs hr hb hm ho hc hu hw hg =>
      simp only [processMintGroup, ha, bind_ok, ensure_ok, exists_const, readState_ok,
        mintClaimedGroup_ok, Prod.exists]
      exact ⟨hs, _, hr, hb, hm, ho, _, _, hc, hu, _, hw, hg⟩

theorem processMintGroupAutoAdvance_ok :
    processMintGroupAutoAdvance env inv l groupIndex txoBump shouldUnlock = .ok (l', es) ↔
      Accepted env inv l
        (.processMintGroupAutoAdvance groupIndex mintBump txoBump shouldUnlock) l' es := by
  constructor
  · intro h
    unfold processMintGroupAutoAdvance at h
    split at h
    · next ha =>
      simp only [bind_ok, ensure_ok, exists_const, readState_ok, mintClaimedGroup_ok,
        Prod.exists] at h
      obtain ⟨hs, st, hr, core₁, ha', hb, core, claim, hc, hu, l₁, hw, hg⟩ := h
      exact .processMintGroupAutoAdvance ha hs hr rfl ha' hb hc hu hw hg
    · cases h
  · intro h
    cases h with
    | processMintGroupAutoAdvance ha hs hr hj ha' hb hc hu hw hg =>
      subst hj
      simp only [processMintGroupAutoAdvance, ha, bind_ok, ensure_ok, exists_const, readState_ok,
        mintClaimedGroup_ok, Prod.exists]
      exact ⟨hs, _, hr, _, ha', hb, _, _, hc, hu, _, hw, hg⟩

theorem processSnapshotWithdrawals_ok :
    processSnapshotWithdrawals env inv l = .ok (l', es) ↔
      Accepted env inv l .snapshotWithdrawals l' es := by
  constructor
  · intro h
    unfold processSnapshotWithdrawals at h
    split at h
    · next ha =>
      simp only [bind_ok, ensure_ok, exists_const, readState_ok, pure_ok, Prod.mk.injEq] at h
      obtain ⟨hs, hp, st, hr, ho, l₁, hw, rfl, rfl⟩ := h
      exact .snapshotWithdrawals ha hs hp hr ho hw
    · cases h
  · intro h
    cases h with
    | snapshotWithdrawals ha hs hp hr ho hw =>
      simp only [processSnapshotWithdrawals, ha, bind_ok, ensure_ok, exists_const, readState_ok,
        pure_ok, Prod.mk.injEq]
      exact ⟨hs, hp, _, hr, ho, _, hw, rfl, trivial⟩

theorem execute_ok {ix : BridgeInstruction} :
    execute env inv l ix = .ok (l', es) ↔ Accepted env inv l ix l' es := by
  cases ix with
  | initializeBridge params => exact processInitialize_ok
  | blockUpdate fixed b₁ b₂ =>
    refine runBlockUpdateCommon_ok.trans ⟨.blockUpdate, ?_⟩
    rintro ⟨⟩
    assumption
  | requestWithdrawal request => exact processRequestWithdrawal_ok
  | processWithdrawal params => exact processProcessWithdrawal_ok
  | operatorWithdrawFees => exact processOperatorWithdrawFees_ok
  | processManualDeposit params => exact processProcessManualDeposit_ok
  | replayWithdrawal => exact processReplayWithdrawal_ok
  | processMintGroup g b u => exact processMintGroup_ok
  | processReorgBlocks fixed extra b₁ b₂ =>
    refine runBlockUpdateCommon_ok.trans ⟨.processReorgBlocks, ?_⟩
    rintro ⟨⟩
    assumption
  | processMintGroupAutoAdvance g b₁ b₂ u => exact processMintGroupAutoAdvance_ok
  | snapshotWithdrawals => exact processSnapshotWithdrawals_ok

theorem processInstruction_ok {data : Bytes} :
    processInstruction env inv l data = .ok (l', es) ↔
      ∃ ix, unpack data = .ok ix ∧ Accepted env inv l ix l' es := by
  simp only [processInstruction, bind_ok, execute_ok]

end Cases

end AcceptedInstructions
