import PsyDogeBridge.BacklogSteps

/-! While groups of a block remain to be minted, its buffer is locked. -/
namespace RecordedBuffer

open PodLayout CheckedSteps SolanaRuntime BridgeData MintGroups PendingMintsTracker ProgramState
  BlockTransition TransitionFacts BridgeCalls BridgeProcessor AcceptedInstructions BridgeSystem
  BufferSteps LocalCluster StateHistory PendingMintBuffer BufferLocks BacklogSteps

variable {env : BridgeEnv} {inv : Invocation} {l l' : Ledger} {k buffer : Pubkey}
  {st : BridgeState} {core : PsyBridgeProgramState} {fixed : BlockUpdateFixedData}
  {extra : List FinalizedBlockMintTxoInfo} {isReorg : Bool}

section Bridge

variable {es : List Effect} {g : UInt16}

/-- The index moves exactly if one of the blocks of the reorganisation has mints. -/
def RaisesForMints (st : BridgeState) (header : PsyBridgeHeader)
    (extra : List FinalizedBlockMintTxoInfo) : Prop :=
  autoClaimIndex st.coreState ≠ header.finalizedState.autoClaimedDepositsNextIndex ↔
    ∃ e ∈ extra ++ [headerInfo header], e.isEmpty = false

theorem groups_ne_zero {count : UInt16} (h : count ≠ 0) :
    (computeMintGroupInfo count).1.toUInt32 ≠ 0 := by
  apply toUInt32_ne_zero
  intro h0
  have hgroups := computeMintGroupInfo_toNat count
  have hcount : count.toNat ≠ 0 := fun h1 => h (UInt16.toNat_inj.mp h1)
  rw [h0] at hgroups
  have hpos := groupCount_pos.mpr (Nat.pos_of_ne_zero hcount)
  rw [← hgroups] at hpos
  exact absurd hpos (Nat.lt_irrefl 0)

/-- Either nothing is opened and the index stays, or the buffer is recorded for a block with
mints and the index moves. -/
inductive Outcome (s : PsyBridgeProgramState) (buffer : Pubkey) (s' : PsyBridgeProgramState) : Prop
  | kept (same : s'.pendingMintTxos = s.pendingMintTxos)
      (index : autoClaimIndex s = autoClaimIndex s')
  | opened (recorded : s'.tracker.lastFinalizedAutoClaimMintsStorageAccount = buffer)
      (remaining : s'.tracker.pendingMintsGroupsRemaining ≠ 0)
      (index : autoClaimIndex s ≠ autoClaimIndex s')

theorem runTransition_outcome {txos : Pubkey} (hc : StandardHash env.crypto)
    (hraises : isReorg = true → RaisesForMints st fixed.header extra)
    (h : runTransition env l st fixed.proof fixed.header extra (BridgeEnv.pda env) buffer txos
      isReorg = .ok core) : Outcome st.coreState buffer core := by
  obtain ⟨hheader, hbacklog⟩ := runTransition_backlog h
  have hindex : autoClaimIndex core = fixed.header.finalizedState.autoClaimedDepositsNextIndex := by
    rw [autoClaimIndex, hheader]
  cases hbacklog with
  | kept same quiet =>
    refine .kept same ?_
    rw [hindex]
    cases isReorg with
    | false => exact newAutoClaims_eq_zero.mp quiet
    | true =>
      by_contra hidx
      obtain ⟨e, he, hne⟩ := (hraises rfl).mp hidx
      rw [quiet e he] at hne
      cases hne
  | opens opens mints =>
    obtain ⟨e, rest, hitems, he, hmatches, htxos⟩ := opens.head
    have htracker : core.tracker = freshTracker buffer _ :=
      congrArg FinalizedBlockMintTxoManager.currentPendingMintsTracker opens.eq
    refine .opened ?_ ?_ ?_
    · rw [htracker]
      rfl
    · rw [htracker]
      exact groups_ne_zero (count_ne_zero hc he hmatches htxos)
    · rw [hindex]
      cases isReorg with
      | false =>
        intro hidx
        exact mints (newAutoClaims_eq_zero.mpr hidx)
      | true => exact (hraises rfl).mpr mints

/-- While groups remain, the buffer that the tracker records is locked for the bridge. -/
def BufferLocked (env : BridgeEnv) (l : Ledger) (st : BridgeState) : Prop :=
  st.coreState.tracker.pendingMintsGroupsRemaining ≠ 0 →
    LockedFor (BridgeEnv.pda env) (l st.coreState.tracker.lastFinalizedAutoClaimMintsStorageAccount)

theorem BufferLocked.frozen {st' : BridgeState} (h : BufferLocked env l st)
    (hf : Frozen (BridgeEnv.pda env) l l')
    (hsame : st'.coreState.pendingMintTxos = st.coreState.pendingMintTxos) :
    BufferLocked env l' st' := by
  have htracker : st'.coreState.tracker = st.coreState.tracker :=
    congrArg FinalizedBlockMintTxoManager.currentPendingMintsTracker hsame
  unfold BufferLocked
  rw [htracker]
  intro hrem
  rw [hf _ (h hrem)]
  exact h hrem

theorem UpdatedOn.bufferLocked (hc : StandardHash env.crypto) (hs : Holds env l st)
    (hraises : isReorg = true → RaisesForMints st fixed.header extra) (hl : BufferLocked env l st)
    (h : UpdatedOn env l st fixed extra isReorg buffer core l') :
    BufferLocked env l' { st with coreState := core } ∧
      (core.tracker.pendingMintsGroupsRemaining = 0 →
        (mintBufferHeader (l' buffer).data).isLocked = 0) := by
  have hunlocked : ¬ LockedFor (BridgeEnv.pda env) (l buffer) := by
    obtain ⟨apart, lock, run, unlock⟩ := h
    intro hlocked
    exact hlocked.locked lock.unlocked
  have houtcome : Outcome st.coreState buffer core := by
    obtain ⟨apart, lock, run, unlock⟩ := h
    exact runTransition_outcome hc hraises run
  rcases houtcome with ⟨hsame, hidx⟩ | ⟨hbuffer, hrem, hidx⟩
  · refine ⟨?_, fun _ => h.unlocked hidx⟩
    have htracker : core.tracker = st.coreState.tracker :=
      congrArg FinalizedBlockMintTxoManager.currentPendingMintsTracker hsame
    unfold BufferLocked
    dsimp only
    rw [htracker]
    intro hrem
    have hbefore := hl hrem
    have hne : st.coreState.tracker.lastFinalizedAutoClaimMintsStorageAccount ≠ buffer := by
      intro heq
      exact hunlocked (heq ▸ hbefore)
    rw [h.elsewhere (hbefore.ne_pda hs) hne]
    exact hbefore
  · refine ⟨?_, fun h0 => absurd h0 hrem⟩
    intro _
    dsimp only
    rw [hbuffer]
    exact h.lockedFor hidx

theorem MintsOn.bufferLocked (htoken : Harmless env TOKEN_PROGRAM_ID) (hs : Holds env l st)
    (hl : BufferLocked env l st) (h : MintsOn env inv l st g core l' es) :
    BufferLocked env l' { st with coreState := core } := by
  obtain @⟨bridgeState, buffer, dogeMint, recipients, jit, core₁, claim, hpda, start, claims,
    group⟩ := h
  have htracker : core.tracker = core₁.tracker.claim g.toNat := by
    rw [claims.state]
    rfl
  have haccount : core.tracker.lastFinalizedAutoClaimMintsStorageAccount = buffer.key := by
    rw [htracker, claim_account]
    exact claims.buffer.symm
  intro hrem
  have hstays : claim.canUnlock = false := by
    rw [claims.claim]
    simpa [PendingMintsTracker.isEmpty, htracker] using hrem
  rw [hstays] at group
  dsimp only
  rw [haccount]
  refine groupMinted_lockedFor htoken hpda ?_ group
  -- Without a new block, the tracker is the one of the state before.
  intro hjit
  subst hjit
  cases start with
  | current =>
    have hlocked := hl claims.remaining
    rw [← claims.buffer] at hlocked
    rw [install_of_ne (hlocked.ne_pda hs)]
    exact hlocked

end Bridge

section Runs

variable {e : Event} {es : List Event} {call : BridgeCall}

/-- A reorganisation of the bridge moves the index exactly if one of its blocks has mints. -/
def raisesForMints (env : BridgeEnv) : Event → Prop
  | .bridge { inv := inv, ix := .processReorgBlocks fixed extra _ _, before := l, .. } =>
    ∀ a rest st, inv.accounts = a :: rest → a.key = BridgeEnv.pda env → Holds env l st →
      RaisesForMints st fixed.header extra
  | _ => True

/-- After a block update of the bridge without groups to mint, its mint buffer is unlocked. -/
def LeavesUnlocked (env : BridgeEnv) (e : Event) (st' : BridgeState) (l' : Ledger) : Prop :=
  ∀ call, e = .bridge call → updatesBlocks call.ix → call.on (BridgeEnv.pda env) →
    st'.coreState.tracker.pendingMintsGroupsRemaining = 0 →
    ∃ buffer, call.inv.accounts[1]? = some buffer ∧
      (mintBufferHeader (l' buffer.key).data).isLocked = 0

theorem Step.bufferLocked (hg : Guarded env.platform) (htoken : Harmless env TOKEN_PROGRAM_ID)
    (hc : StandardHash env.crypto) (hz : BridgeEnv.pda env ≠ zeroBytes) (hinit : ¬ isInitialize e)
    (hquiet : quietShim env e) (hraises : raisesForMints env e) (hs : Holds env l st)
    (hl : BufferLocked env l st) (h : Step env l e l') :
    ∃ st', Holds env l' st' ∧ BufferLocked env l' st' ∧ LeavesUnlocked env e st' l' := by
  obtain ⟨st', hs', hstep⟩ := Step.backlogStep hg hinit hs h
  refine ⟨st', hs', ?_⟩
  cases hstep with
  | kept hstill same =>
    refine ⟨hl.frozen (Step.frozen hg htoken hz hquiet hstill h) same, ?_⟩
    intro call hcall hupdates hon
    exact absurd (movesBacklog_of_updates hupdates) (hstill call hcall hon)
  | blockUpdate _ account update =>
    obtain ⟨hlocked, hunlocked⟩ := UpdatedOn.bufferLocked hc hs (by nofun) hl update
    refine ⟨hlocked, ?_⟩
    intro call hcall _ _ h0
    cases hcall
    exact ⟨_, account, hunlocked h0⟩
  | reorg on account update =>
    obtain ⟨a, rest, ha, hpda⟩ := on
    obtain ⟨hlocked, hunlocked⟩ :=
      UpdatedOn.bufferLocked hc hs (fun _ => hraises a rest st ha hpda hs) hl update
    refine ⟨hlocked, ?_⟩
    intro call hcall _ _ h0
    cases hcall
    exact ⟨_, account, hunlocked h0⟩
  | mints _ group mints =>
    refine ⟨MintsOn.bufferLocked htoken hs hl mints, ?_⟩
    intro call hcall hupdates
    cases hcall
    exact absurd hupdates (not_updates_of_mints group)

/-- After the one INITIALIZE, in a run in which every reorganisation moves the index exactly if
it brings mints: whenever groups remain the recorded buffer is locked, and a block update
without mints leaves its buffer unlocked. -/
theorem recorded_buffer_locked {params : InitializeBridgeInstructionData} {l₁ l₂ l₃ l₄ : Ledger}
    (hg : Guarded env.platform) (htoken : Harmless env TOKEN_PROGRAM_ID)
    (hc : StandardHash env.crypto) (hz : BridgeEnv.pda env ≠ zeroBytes)
    (init : Step env l₁ (.bridge call) l₂) (isInit : call.ix = .initializeBridge params)
    (first : (l₁ (BridgeEnv.pda env)).data = [])
    (r : Run (Step env) l₂ es l₃) (last : Step env l₃ e l₄)
    (once : ∀ e' ∈ es ++ [e], ¬ isInitialize e') (quiet : ∀ e' ∈ es ++ [e], quietShim env e')
    (raises : ∀ e' ∈ es ++ [e], raisesForMints env e') :
    ∃ st, Holds env l₄ st ∧ BufferLocked env l₄ st ∧ LeavesUnlocked env e st l₄ := by
  have hbase : ∃ st, Holds env l₂ st ∧ BufferLocked env l₂ st :=
    ⟨_, init.initialized hg isInit first, fun h => absurd rfl h⟩
  have hstep {l l' : Ledger} {e' : Event} (he : e' ∈ es ++ [e]) (h : Step env l e' l')
      (hst : ∃ st, Holds env l st ∧ BufferLocked env l st) :
      ∃ st', Holds env l' st' ∧ BufferLocked env l' st' ∧ LeavesUnlocked env e' st' l' := by
    obtain ⟨st, hs, hl⟩ := hst
    exact Step.bufferLocked hg htoken hc hz (once e' he) (quiet e' he) (raises e' he) hs hl h
  have hbefore : ∃ st, Holds env l₃ st ∧ BufferLocked env l₃ st := by
    refine Run.invariant (P := fun l => ∃ st, Holds env l st ∧ BufferLocked env l st) ?_
      (r.restrict fun e' he => List.mem_append_left [e] he) hbase
    intro l e' l' hst h
    obtain ⟨st', hs', hl', -⟩ := hstep h.2 h.1 hst
    exact ⟨st', hs', hl'⟩
  exact hstep (List.mem_append_right _ (List.mem_singleton_self e)) last hbefore

end Runs

section Updates

variable {txos operator : Pubkey} {mintBump txoBump : UInt8}

def updateInvocation (env : BridgeEnv) (buffer txos operator : Pubkey) : Invocation where
  programId := DOGE_BRIDGE_PROGRAM_ID
  accounts := [⟨BridgeEnv.pda env, false, true⟩, ⟨buffer, false, true⟩, ⟨txos, false, false⟩,
    ⟨operator, true, true⟩, ⟨operator, true, true⟩,
    ⟨PENDING_MINT_BUFFER_BUILDER_PROGRAM_ID, false, false⟩,
    ⟨TXO_BUFFER_BUILDER_PROGRAM_ID, false, false⟩]
  unixTimestamp := 0
  fundsSuffice := true

theorem updateInvocation_on (env : BridgeEnv) (buffer txos operator : Pubkey) :
    onAccount (updateInvocation env buffer txos operator) (BridgeEnv.pda env) :=
  ⟨_, _, rfl, rfl⟩

theorem locker_called {tag : UInt8} {l₁ : Ledger} (hp : inv.programId = DOGE_BRIDGE_PROGRAM_ID)
    (hpda : (⟨BridgeEnv.pda env, false, true⟩ : AccountInfo) ∈ inv.accounts)
    (hbuffer : (⟨buffer, false, true⟩ : AccountInfo) ∈ inv.accounts)
    (hprogram : inv.lists PENDING_MINT_BUFFER_BUILDER_PROGRAM_ID)
    (ran : callee env inv (lockerCall env inv tag ⟨buffer, false, true⟩
      ⟨BridgeEnv.pda env, false, true⟩) l = some l₁) :
    Called env inv .none (lockerCall env inv tag ⟨buffer, false, true⟩
      ⟨BridgeEnv.pda env, false, true⟩) l l₁ := by
  refine ⟨?_, hprogram, ?_, ran⟩
  · intro _ m _
    exact ⟨List.not_mem_nil, fun _ => List.not_mem_nil⟩
  · intro m hm
    rcases List.mem_cons.mp hm with rfl | hm
    · exact ⟨⟨_, hbuffer, rfl⟩, nofun, fun _ => ⟨_, hbuffer, rfl, rfl⟩⟩
    · rw [List.mem_singleton.mp hm]
      have hsigner : env.bridgePda inv.programId = BridgeEnv.pda env := by rw [hp, BridgeEnv.pda]
      exact ⟨⟨_, hpda, rfl⟩, fun _ => .inr (congrArg some hsigner), nofun⟩

/-- A block update that moves the index is accepted once its buffers are in place. -/
theorem blockUpdated_of {l₁ : Ledger} (hs : Holds env l st)
    (lock : Locks (BridgeEnv.pda env) l l₁ buffer)
    (htxos : (l txos).owner = TXO_BUFFER_BUILDER_PROGRAM_ID)
    (mintPda : env.platform.createProgramAddress [MINT_BUFFER_SEED, operator.toList, [mintBump]]
      PENDING_MINT_BUFFER_BUILDER_PROGRAM_ID = some buffer)
    (txoPda : env.platform.createProgramAddress [TXO_BUFFER_SEED, operator.toList, [txoBump]]
      TXO_BUFFER_BUILDER_PROGRAM_ID = some txos)
    (run : runTransition env l₁ st fixed.proof fixed.header extra (BridgeEnv.pda env) buffer txos
      isReorg = .ok core)
    (raised : autoClaimIndex st.coreState ≠ autoClaimIndex core) :
    ∃ es, BlockUpdated env (updateInvocation env buffer txos operator) l fixed extra mintBump
      txoBump isReorg (install env l₁ { st with coreState := core }) es := by
  have hbuffer : buffer ≠ BridgeEnv.pda env := by
    intro heq
    have howner := lock.owner
    rw [heq, show l (BridgeEnv.pda env) = _ from hs] at howner
    exact buffer_ne_bridge howner.symm
  have hbridge : DOGE_BRIDGE_PROGRAM_ID ≠ TXO_BUFFER_BUILDER_PROGRAM_ID := by decide
  have htxosPda : txos ≠ BridgeEnv.pda env := by
    intro heq
    rw [heq, show l (BridgeEnv.pda env) = _ from hs] at htxos
    exact hbridge htxos
  have htxosBuffer : txos ≠ buffer := by
    intro heq
    rw [heq, lock.owner] at htxos
    exact absurd htxos (by decide)
  have hs₁ : Holds env l₁ st := (lock.elsewhere hbuffer.symm).trans hs
  have hwrites : (updateInvocation env buffer txos operator).writes (BridgeEnv.pda env) :=
    ⟨_, List.mem_cons_self, rfl, rfl⟩
  have hlists : (updateInvocation env buffer txos operator).lists
      PENDING_MINT_BUFFER_BUILDER_PROGRAM_ID :=
    ⟨⟨PENDING_MINT_BUFFER_BUILDER_PROGRAM_ID, false, false⟩, by simp [updateInvocation], rfl⟩
  have hlock : Called env (updateInvocation env buffer txos operator) .none
      (lockerCall env (updateInvocation env buffer txos operator) 4 ⟨buffer, false, true⟩
        ⟨BridgeEnv.pda env, false, true⟩) l l₁ :=
    locker_called rfl List.mem_cons_self (List.mem_cons_of_mem _ List.mem_cons_self) hlists
      (lock_callee.mpr lock)
  have hkept : CalledIf env (updateInvocation env buffer txos operator)
      (decide (autoClaimIndex st.coreState = autoClaimIndex core)) .none
      (lockerCall env (updateInvocation env buffer txos operator) 5 ⟨buffer, false, true⟩
        ⟨BridgeEnv.pda env, false, true⟩) (install env l₁ { st with coreState := core })
      (install env l₁ { st with coreState := core }, []) := by
    rw [decide_eq_false raised]
    rfl
  refine ⟨_, .intro rfl rfl mintPda txoPda lock.owner ⟨hlock, rfl⟩
    (congrArg Account.data hs₁) ?_ ⟨hbuffer, htxosPda⟩ run
    (writeState_ok.mpr ⟨.inr ⟨congrArg Account.owner hs₁, hwrites⟩,
      (Holds.setData_eq_install hs₁).symm⟩) hkept⟩
  dsimp only
  rw [lock.elsewhere htxosBuffer]
  exact htxos

theorem withHeader_append (h h' : Header) (area : Bytes) :
    withHeader (PendingMintsBufferStateHeader.pod.encode h ++ area) h' =
      PendingMintsBufferStateHeader.pod.encode h' ++ area := by
  have hlen : (PendingMintsBufferStateHeader.pod.encode h).length =
      0 + (PendingMintsBufferStateHeader.pod.encode h').length := by
    rw [Pod.encode_length, Pod.encode_length, Nat.zero_add]
  rw [withHeader, splice, List.drop_left' hlen]
  rfl

theorem openBuffer_locks {count : UInt16} {area : Bytes}
    (hl : l k = ⟨PENDING_MINT_BUFFER_BUILDER_PROGRAM_ID, openBuffer count area⟩) :
    Locks bridgeState l (l.setData k (mintBuffer count area)) k := by
  have hheader : mintBufferHeader (l k).data =
      ⟨bridgeState, operatorKey, 0, 0, (computeMintGroupInfo count).1, count, count⟩ := by
    rw [hl]
    exact mintBufferHeader_append _ _
  have hlong : HEADER_SIZE ≤ (openBuffer count area).length := by
    rw [openBuffer, List.length_append, Pod.encode_length]
    exact Nat.le_add_right 72 _
  refine ⟨?_, ?_, ?_, ?_, ?_, ?_⟩
  · rw [hl]
  · rw [hl]
    exact hlong
  · rw [hheader]
  · rw [hheader]
  · rw [hheader]
  · rw [hheader, hl]
    exact congrArg _ (withHeader_append _ _ _).symm

theorem bufferLedger_mints (mints txoData : Bytes) :
    bufferLedger mints txoData mintBufferKey = ⟨PENDING_MINT_BUFFER_BUILDER_PROGRAM_ID, mints⟩ := by
  have hne : mintBufferKey ≠ txoBufferKey := by decide
  rw [bufferLedger, Function.update_of_ne hne, Function.update_self]

theorem bufferLedger_txos (mints txoData : Bytes) :
    bufferLedger mints txoData txoBufferKey = ⟨TXO_BUFFER_BUILDER_PROGRAM_ID, txoData⟩ :=
  Function.update_self ..

theorem bufferLedger_unused (mints txoData : Bytes) :
    bufferLedger mints txoData (BridgeEnv.pda cluster) = ⟨SYSTEM_PROGRAM_ID, []⟩ := by
  have hmints : bridgeState ≠ mintBufferKey := by decide
  have htxos : bridgeState ≠ txoBufferKey := by decide
  rw [cluster_pda, bufferLedger, Function.update_of_ne htxos, Function.update_of_ne hmints]
  rfl

theorem cluster_update {count : UInt16} {area txoData : Bytes}
    (hmints : l mintBufferKey = ⟨PENDING_MINT_BUFFER_BUILDER_PROGRAM_ID, openBuffer count area⟩)
    (htxos : l txoBufferKey = ⟨TXO_BUFFER_BUILDER_PROGRAM_ID, txoData⟩)
    (run : runTransition cluster ((install cluster l st).setData mintBufferKey
        (mintBuffer count area)) st fixed.proof fixed.header extra bridgeState mintBufferKey
      txoBufferKey isReorg = .ok core)
    (raised : autoClaimIndex st.coreState ≠ autoClaimIndex core) :
    ∃ es l', BlockUpdated cluster (updateInvocation cluster mintBufferKey txoBufferKey operatorKey)
        (install cluster l st) fixed extra 253 254 isReorg l' es ∧
      Holds cluster l' { st with coreState := core } ∧
      l' mintBufferKey = ⟨PENDING_MINT_BUFFER_BUILDER_PROGRAM_ID, mintBuffer count area⟩ ∧
      ∀ k, k ≠ bridgeState → k ≠ mintBufferKey → l' k = l k := by
  have hmintsPda : mintBufferKey ≠ BridgeEnv.pda cluster := ne_pda (by decide)
  have htxosPda : txoBufferKey ≠ BridgeEnv.pda cluster := ne_pda (by decide)
  have hopen : install cluster l st mintBufferKey =
      ⟨PENDING_MINT_BUFFER_BUILDER_PROGRAM_ID, openBuffer count area⟩ := by
    rw [install_of_ne hmintsPda, hmints]
  have howner : (install cluster l st txoBufferKey).owner =
      TXO_BUFFER_BUILDER_PROGRAM_ID := by
    rw [install_of_ne htxosPda, htxos]
  have hlock := openBuffer_locks hopen
  rw [← cluster_pda] at hlock run
  obtain ⟨es, hes⟩ := blockUpdated_of (install_holds _ _ _) hlock howner mintBufferKey_derived
    txoBufferKey_derived run raised
  refine ⟨es, _, hes, install_holds _ _ _, ?_, ?_⟩
  · rw [install_of_ne hmintsPda, setData_self, hopen]
  · intro k hk hne
    rw [← cluster_pda] at hk
    rw [install_of_ne hk, setData_of_ne hne, install_of_ne hk]

end Updates

def emptyInfo : FinalizedBlockMintTxoInfo :=
  ⟨PM_DA_DEFAULT_PENDING_MINTS_BUFFER_HASH, PM_TXO_DEFAULT_BUFFER_HASH⟩

/-- Two empty blocks after genesis, with a header that counts five deposits. -/
def emptyReorg : BlockUpdateFixedData where
  proof := Vector.replicate 256 0
  header := depositHeader 12 5 PM_DA_DEFAULT_PENDING_MINTS_BUFFER_HASH PM_TXO_DEFAULT_BUFFER_HASH

theorem emptyReorg_accepted :
    runTransition cluster l (genesisState operatorKey 10) emptyReorg.proof emptyReorg.header
      [emptyInfo] bridgeState mintBufferKey txoBufferKey true =
    .ok { (genesisState operatorKey 10).coreState with bridgeHeader := emptyReorg.header } := by
  have htip : ¬ (12 : UInt32) ≤ 10 := by decide
  have hempty : ∀ e ∈ [emptyInfo] ++ [headerInfo emptyReorg.header], e.isEmpty = true := by
    decide
  refine runTransition_reorg.mpr ⟨⟨rfl, Vector.length_toList, Vector.length_toList, htip,
    Nat.not_lt_zero _⟩, htip, rfl, rfl, _, .kept hempty rfl, rfl⟩

abbrev reorgCall (fixed : BlockUpdateFixedData) (extra : List FinalizedBlockMintTxoInfo)
    (es : List Effect) (l l' : Ledger) : BridgeCall :=
  ⟨updateInvocation cluster mintBufferKey txoBufferKey operatorKey,
    .processReorgBlocks fixed extra 253 254, es, l, l'⟩

/-- A reorganisation without mints whose header counts new deposits leaves its buffer locked. -/
theorem empty_reorg_leaves_locked :
    ∃ es₁ es₂ l₁ l₂,
      Step cluster (bufferLedger (openBuffer 0 []) [])
        (.bridge (genesisCall es₁ (bufferLedger (openBuffer 0 []) []) l₁)) l₁ ∧
      Step cluster l₁ (.bridge (reorgCall emptyReorg [emptyInfo] es₂ l₁ l₂)) l₂ ∧
      ∃ st, Holds cluster l₂ st ∧ st.coreState.tracker.pendingMintsGroupsRemaining = 0 ∧
        (mintBufferHeader (l₂ mintBufferKey).data).isLocked ≠ 0 := by
  obtain ⟨es₁, _, h₁, rfl⟩ := genesis_step (bufferLedger_unused _ _)
  obtain ⟨es₂, l₂, h₂, hs₂, hbuffer, -⟩ := cluster_update (bufferLedger_mints _ _)
    (bufferLedger_txos _ _) emptyReorg_accepted (by decide)
  refine ⟨es₁, es₂, _, l₂, h₁, step_of_accepted rfl (.processReorgBlocks h₂), _, hs₂, rfl, ?_⟩
  have hheader : mintBufferHeader (mintBuffer 0 []) = ⟨bridgeState, operatorKey, 1, 0, _, 0, 0⟩ :=
    mintBufferHeader_append _ _
  rw [hbuffer, hheader]
  decide

theorem cluster_token : Harmless cluster TOKEN_PROGRAM_ID := by
  have hbridge : ¬ ofBridgeOrBuffer TOKEN_PROGRAM_ID := by
    intro h
    rcases h with h | h
    · exact token_ne_bridge h
    · exact buffer_ne_token h.symm
  exact .inr ⟨buffer_ne_token.symm, token_bystander hbridge _⟩

def firstBlock : BlockUpdateFixedData :=
  ⟨Vector.replicate 256 0, firstHeader 1 depositArea depositTxos⟩

abbrev updateCall (es : List Effect) (l l' : Ledger) : BridgeCall :=
  ⟨updateInvocation cluster mintBufferKey txoBufferKey operatorKey,
    .blockUpdate firstBlock 253 254, es, l, l'⟩

def depositLedger : Ledger :=
  bufferLedger (openBuffer 1 depositArea) (txoBuffer 11 depositTxos)

/-- The cluster accepts its first block, and the state and the locked buffer are as it says. -/
structure FirstUpdated (l : Ledger) (es : List Effect) (l' : Ledger)
    (core : PsyBridgeProgramState) : Prop where
  updated : BlockUpdated cluster (updateInvocation cluster mintBufferKey txoBufferKey operatorKey)
    (install cluster l (genesisState operatorKey 10)) firstBlock [] 253 254 false l' es
  holds : Holds cluster l' ⟨core, mintKey⟩
  backlog : core.pendingMintTxos = firstBacklog mintBufferKey 1 depositArea depositTxos
  access : core.accessControl = (genesisState operatorKey 10).coreState.accessControl
  buffer : l' mintBufferKey = ⟨PENDING_MINT_BUFFER_BUILDER_PROGRAM_ID, mintBuffer 1 depositArea⟩
  others : ∀ k, k ≠ bridgeState → k ≠ mintBufferKey → l' k = l k

theorem firstBlock_updated_with {txoData : Bytes}
    (hmints : l mintBufferKey = ⟨PENDING_MINT_BUFFER_BUILDER_PROGRAM_ID, openBuffer 1 depositArea⟩)
    (htxos : l txoBufferKey = ⟨TXO_BUFFER_BUILDER_PROGRAM_ID, txoData⟩)
    (hsize : (txoBufferHeader txoData).dataSize ≠ 0)
    (hmatches : TxoBufferMatches crypto (crypto.sha256 depositTxos) 11 txoData 1) :
    ∃ es l' core, FirstUpdated l es l' core := by
  have harea : depositArea.length = groupCount 1 * 32 + 1 * 40 := by decide
  obtain ⟨core, hrun, hheader, hbacklog, haccess⟩ := firstHeader_accepted mintBufferKey
    firstBlock.proof (SINGLE_BLOCK_UPDATE_VK cluster.features) (by decide) (by decide) harea
    hsize hmatches (by decide +kernel)
  have hmintsRead : ((install cluster l (genesisState operatorKey 10)).setData mintBufferKey
      (mintBuffer 1 depositArea) mintBufferKey).data = mintBuffer 1 depositArea := by
    rw [setData_self]
  have htxosRead : ((install cluster l (genesisState operatorKey 10)).setData mintBufferKey
      (mintBuffer 1 depositArea) txoBufferKey).data = txoData := by
    have hne : txoBufferKey ≠ mintBufferKey := by decide
    have hpda : txoBufferKey ≠ BridgeEnv.pda cluster := ne_pda (by decide)
    rw [setData_of_ne hne, install_of_ne hpda, htxos]
  rw [← hmintsRead, ← htxosRead] at hrun
  have hraised : autoClaimIndex (genesisState operatorKey 10).coreState ≠ autoClaimIndex core := by
    rw [autoClaimIndex, autoClaimIndex, hheader]
    decide
  obtain ⟨es, l', hupdated, hs, hbuffer, helse⟩ := cluster_update hmints htxos
    (runTransition_single.mpr (runStandardSingleBlockTransition_ok.mp hrun)) hraised
  exact ⟨es, l', core, hupdated, hs, hbacklog, haccess, hbuffer, helse⟩

theorem firstBlock_updated
    (hmints : l mintBufferKey = ⟨PENDING_MINT_BUFFER_BUILDER_PROGRAM_ID, openBuffer 1 depositArea⟩)
    (htxos : l txoBufferKey = ⟨TXO_BUFFER_BUILDER_PROGRAM_ID, txoBuffer 11 depositTxos⟩) :
    ∃ es l' core, FirstUpdated l es l' core :=
  firstBlock_updated_with hmints htxos (txoBuffer_dataSize _ _) (txoBuffer_matches 11 rfl)

/-- The first block of the cluster leaves its buffer locked, since a group remains. -/
theorem first_block_leaves_locked :
    ∃ es₁ es₂ l₁ l₂,
      Step cluster depositLedger (.bridge (genesisCall es₁ depositLedger l₁)) l₁ ∧
      Step cluster l₁ (.bridge (updateCall es₂ l₁ l₂)) l₂ ∧
      ∃ st, Holds cluster l₂ st ∧ st.coreState.tracker.pendingMintsGroupsRemaining = 1 ∧
        LockedFor (BridgeEnv.pda cluster) (l₂ mintBufferKey) := by
  have hunused : depositLedger (BridgeEnv.pda cluster) = ⟨SYSTEM_PROGRAM_ID, []⟩ :=
    bufferLedger_unused _ _
  have hpda : BridgeEnv.pda cluster ≠ zeroBytes := (ne_pda (by decide)).symm
  obtain ⟨es₁, _, h₁, rfl⟩ := genesis_step hunused
  obtain ⟨es₂, l₂, core, h₂, hs₂, hbacklog, -⟩ :=
    firstBlock_updated (bufferLedger_mints _ _) (bufferLedger_txos _ _)
  have hstep := step_of_accepted rfl (.blockUpdate h₂)
  obtain ⟨st, hs, hlocked, -⟩ := recorded_buffer_locked cluster_guarded cluster_token
    crypto_standard hpda h₁ rfl (congrArg Account.data hunused) (.nil _) hstep
    (by rw [List.nil_append, List.forall_mem_singleton]; exact id)
    (by rw [List.nil_append, List.forall_mem_singleton]; exact False.elim)
    (by rw [List.nil_append, List.forall_mem_singleton]; trivial)
  obtain rfl := Holds.unique hs hs₂
  have htracker : core.tracker = ⟨mintBufferKey, zeroBytes, 1, 1⟩ := by
    rw [PsyBridgeProgramState.tracker, hbacklog]
    rfl
  unfold BufferLocked at hlocked
  dsimp only at hlocked
  rw [htracker] at hlocked
  exact ⟨es₁, es₂, _, l₂, h₁, hstep, _, hs₂, congrArg _ htracker, hlocked (by decide)⟩

end RecordedBuffer
