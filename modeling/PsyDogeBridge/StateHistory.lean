import PsyDogeBridge.LocalCluster
import PsyDogeBridge.StateRuns

/-! What stays and what only grows in the state of the bridge. -/
namespace StateHistory

open PodLayout CheckedSteps SolanaRuntime BridgeData ProgramState BridgeCalls BridgeProcessor
  AcceptedInstructions BridgeSystem InstructionCodec LocalCluster StateRuns

variable {env : BridgeEnv} {ix : BridgeInstruction} {st st' st'' : BridgeState}

structure SameSetup (st st' : BridgeState) : Prop where
  operator : st'.coreState.accessControl.operatorPubkey = st.coreState.accessControl.operatorPubkey
  feeSpender : st'.coreState.accessControl.feeSpenderPubkey =
    st.coreState.accessControl.feeSpenderPubkey
  mint : st'.dogeMint = st.dogeMint
  config : st'.coreState.configParams = st.coreState.configParams
  custodian : st'.coreState.custodianWalletConfigHash = st.coreState.custodianWalletConfigHash

theorem SameSetup.refl (st : BridgeState) : SameSetup st st := ⟨rfl, rfl, rfl, rfl, rfl⟩

theorem SameSetup.trans (h : SameSetup st st') (h' : SameSetup st' st'') : SameSetup st st'' :=
  ⟨h'.operator.trans h.operator, h'.feeSpender.trans h.feeSpender, h'.mint.trans h.mint,
    h'.config.trans h.config, h'.custodian.trans h.custodian⟩

structure NoSmaller (st st' : BridgeState) : Prop where
  tip : st.coreState.bridgeHeader.tipState.blockHeight ≤
    st'.coreState.bridgeHeader.tipState.blockHeight
  finalized : st.coreState.bridgeHeader.finalizedState.blockHeight ≤
    st'.coreState.bridgeHeader.finalizedState.blockHeight
  sent : st.coreState.sentTransactionsTree.nextIndex ≤ st'.coreState.sentTransactionsTree.nextIndex
  manual : st.coreState.manualDepositsTree.nextIndex ≤ st'.coreState.manualDepositsTree.nextIndex
  requested : st.coreState.requestedWithdrawalsTree.nextIndex ≤
    st'.coreState.requestedWithdrawalsTree.nextIndex
  fees : st.coreState.totalFeesWithdrawnSats ≤ st'.coreState.totalFeesWithdrawnSats

theorem NoSmaller.refl (st : BridgeState) : NoSmaller st st :=
  ⟨UInt32.le_refl _, UInt32.le_refl _, UInt64.le_refl _, UInt64.le_refl _, UInt64.le_refl _,
    UInt64.le_refl _⟩

theorem NoSmaller.trans (h : NoSmaller st st') (h' : NoSmaller st' st'') : NoSmaller st st'' :=
  ⟨UInt32.le_trans h.tip h'.tip, UInt32.le_trans h.finalized h'.finalized,
    UInt64.le_trans h.sent h'.sent, UInt64.le_trans h.manual h'.manual,
    UInt64.le_trans h.requested h'.requested, UInt64.le_trans h.fees h'.fees⟩

theorem StateStep.sameSetup (h : StateStep env ix st st')
    (hix : ∀ params, ix ≠ .initializeBridge params) : SameSetup st st' := by
  cases StateStep.update h with
  | initializeBridge params => exact absurd rfl (hix params)
  | _ => exact ⟨rfl, rfl, rfl, rfl, rfl⟩

def Advances (st : BridgeState) : BridgeInstruction → Prop
  | .initializeBridge _ => False
  | .blockUpdate .. => st.coreState.bridgeHeader.finalizedState.blockHeight ≠ 0xFFFFFFFF
  | .requestWithdrawal _ => st.coreState.requestedWithdrawalsTree.nextIndex ≠ 0xFFFFFFFFFFFFFFFF
  | .processWithdrawal _ => st.coreState.sentTransactionsTree.nextIndex ≠ 0xFFFFFFFFFFFFFFFF
  | .processManualDeposit _ => st.coreState.manualDepositsTree.nextIndex ≠ 0xFFFFFFFFFFFFFFFF
  | _ => True

theorem StateStep.noSmaller (h : StateStep env ix st st') (hix : Advances st ix) :
    NoSmaller st st' := by
  have same := NoSmaller.refl st
  cases h with
  | initializeBridge => exact hix.elim
  | blockUpdate run =>
    obtain ⟨_, _, -, -, rfl⟩ := run.update
    refine { same with tip := ?_, finalized := ?_ }
    · exact UInt32.le_of_lt (UInt32.not_le.mp run.header.tip)
    · exact run.height ▸ le_add_one_32 hix
  | processReorgBlocks run =>
    obtain ⟨_, -, rfl⟩ := run.update
    refine { same with tip := ?_, finalized := ?_ }
    · exact UInt32.le_of_lt (UInt32.not_le.mp run.header.tip)
    · exact UInt32.le_of_lt (UInt32.not_le.mp run.height)
  | requestWithdrawal run =>
    obtain ⟨_, -, -, -, rfl⟩ := PsyBridgeProgramState.processRequestWithdrawal_some.mp run
    exact { same with requested := le_add_one_64 hix }
  | processWithdrawal run =>
    obtain ⟨-, -, rfl, -⟩ := PsyBridgeProgramState.runProcessBridgeWithdrawal_ok.mp run
    exact { same with sent := le_add_one_64 hix }
  | operatorWithdrawFees run =>
    obtain ⟨hlt, -, rfl⟩ := PsyBridgeProgramState.runBridgeOperatorWithdrawFeesPrecheck_ok.mp run
    exact { same with fees := UInt64.le_of_lt hlt }
  | processManualDeposit run =>
    obtain ⟨-, -, _, -, -, -, rfl, -⟩ := PsyBridgeProgramState.processManualClaimedDeposit_ok.mp run
    exact { same with manual := le_add_one_64 hix }
  | replayWithdrawal run =>
    obtain ⟨-, -, rfl⟩ := PsyBridgeProgramState.processReplayWithdrawalProof_ok.mp run
    exact { same with }
  | processMintGroup run =>
    rw [run.state]
    exact { same with }
  | processMintGroupAutoAdvance setup run =>
    rw [run.state]
    rcases setup with rfl | ⟨_, _, _, hs⟩
    · exact { same with }
    · rw [setup_core hs]
      exact { same with }
  | snapshotWithdrawals => exact { same with }

def Keeps (env : BridgeEnv) : Event → Prop
  | .bridge call => call.on (BridgeEnv.pda env) → ∀ st, Holds env call.before st →
      Advances st call.ix
  | _ => True

variable {l l' : Ledger} {e : Event}

theorem Step.keeps (hg : Guarded env.platform) (h : Step env l e l') (hk : Keeps env e)
    (hs : Holds env l st) : ∃ st', Holds env l' st' ∧ SameSetup st st' ∧ NoSmaller st st' := by
  obtain ⟨st', hs', rfl | ⟨call, rfl, hon, hstep⟩⟩ := h.holds hg hs
  · exact ⟨st', hs', .refl _, .refl _⟩
  · have hadv : Advances st call.ix := hk hon st (h.accepted.1 ▸ hs)
    refine ⟨st', hs', StateStep.sameSetup hstep ?_, StateStep.noSmaller hstep hadv⟩
    intro params hix
    rw [hix] at hadv
    exact hadv

theorem run_keeps {es : List Event} (hg : Guarded env.platform) (r : Run (Step env) l es l')
    (hk : ∀ e ∈ es, Keeps env e) (hs : Holds env l st) :
    ∃ st', Holds env l' st' ∧ SameSetup st st' ∧ NoSmaller st st' := by
  refine (r.restrict hk).invariant
    (P := fun l => ∃ st', Holds env l st' ∧ SameSetup st st' ∧ NoSmaller st st') ?_
    ⟨st, hs, .refl _, .refl _⟩
  rintro l e l' ⟨st₁, hs₁, hsame, hgrow⟩ ⟨hstep, hke⟩
  obtain ⟨st₂, hs₂, hsame', hgrow'⟩ := Step.keeps hg hstep hke hs₁
  exact ⟨st₂, hs₂, hsame.trans hsame', hgrow.trans hgrow'⟩

/-- Between any two moments after the first INITIALIZE, in a run whose instructions neither
start over nor overflow a counter. -/
theorem setup_kept_and_counters_grow {call : BridgeCall}
    {params : InitializeBridgeInstructionData} {l₀ l₁ l₂ l₃ : Ledger} {es es' : List Event}
    (hg : Guarded env.platform) (init : Step env l₀ (.bridge call) l₁)
    (isInit : call.ix = .initializeBridge params) (first : (l₀ (BridgeEnv.pda env)).data = [])
    (r : Run (Step env) l₁ es l₂) (r' : Run (Step env) l₂ es' l₃)
    (keeps : ∀ e ∈ es ++ es', Keeps env e) :
    ∃ st st', Holds env l₂ st ∧ Holds env l₃ st' ∧ SameSetup st st' ∧ NoSmaller st st' := by
  have h₁ := init.initialized hg isInit first
  obtain ⟨st, hs, -⟩ := run_keeps hg r (fun e he => keeps e (List.mem_append_left _ he)) h₁
  obtain ⟨st', hs', hsame, hgrow⟩ :=
    run_keeps hg r' (fun e he => keeps e (List.mem_append_right _ he)) hs
  exact ⟨st, st', hs, hs', hsame, hgrow⟩

def initializeInvocation (env : BridgeEnv) (payer : Pubkey) : Invocation where
  programId := DOGE_BRIDGE_PROGRAM_ID
  accounts := [⟨BridgeEnv.pda env, false, true⟩, ⟨payer, true, true⟩,
    ⟨SYSTEM_PROGRAM_ID, false, false⟩]
  unixTimestamp := 0
  fundsSuffice := true

theorem initializeInvocation_writes (env : BridgeEnv) (payer : Pubkey) :
    (initializeInvocation env payer).writes (BridgeEnv.pda env) :=
  ⟨_, List.mem_cons_self, rfl, rfl⟩

theorem step_of_accepted {inv : Invocation} {es : List Effect}
    (hp : inv.programId = DOGE_BRIDGE_PROGRAM_ID) (h : Accepted env inv l ix l' es) :
    Step env l (.bridge ⟨inv, ix, es, l, l'⟩) l' :=
  .bridge hp (unpack_instructionData ix)
    (processInstruction_ok.mpr ⟨ix, unpack_instructionData ix, h⟩)

def install (env : BridgeEnv) (l : Ledger) (st : BridgeState) : Ledger :=
  Function.update l (BridgeEnv.pda env) ⟨DOGE_BRIDGE_PROGRAM_ID, BridgeState.pod.encode st⟩

theorem install_holds (env : BridgeEnv) (l : Ledger) (st : BridgeState) :
    Holds env (install env l st) st := Function.update_self ..

theorem install_of_ne {k : Pubkey} (h : k ≠ BridgeEnv.pda env) : install env l st k = l k :=
  Function.update_of_ne h ..

theorem cluster_install_of_ne {k : Pubkey} (h : k ≠ bridgeState) : install cluster l st k = l k :=
  install_of_ne (ne_pda h)

theorem install_install : install env (install env l st) st' = install env l st' :=
  Function.update_idem ..

theorem Holds.setData_eq_install (h : Holds env l st) :
    l.setData (BridgeEnv.pda env) (BridgeState.pod.encode st') = install env l st' := by
  unfold Holds at h
  rw [Ledger.setData, h, install]

theorem initialize_unused (env : BridgeEnv) (l : Ledger) (payer : Pubkey)
    (params : InitializeBridgeInstructionData)
    (h : l (BridgeEnv.pda env) = ⟨SYSTEM_PROGRAM_ID, []⟩) :
    ∃ es l', Step env l
        (.bridge ⟨initializeInvocation env payer, .initializeBridge params, es, l, l'⟩) l' ∧
      l' = install env l ⟨PsyBridgeProgramState.initialized params, params.dogeMint⟩ := by
  have hread : (Function.update l (BridgeEnv.pda env)
      ⟨DOGE_BRIDGE_PROGRAM_ID, List.replicate BridgeState.pod.size 0⟩ (BridgeEnv.pda env)).data =
      BridgeState.pod.encode (BridgeState.pod.decode (List.replicate BridgeState.pod.size 0)) := by
    rw [Function.update_self, BridgeState.pod.encode_decode _ List.length_replicate]
  have hpayer : (⟨payer, true, true⟩ : AccountInfo) ∈ (initializeInvocation env payer).accounts :=
    List.mem_cons_of_mem _ List.mem_cons_self
  have hsystem : (⟨SYSTEM_PROGRAM_ID, false, false⟩ : AccountInfo) ∈
      (initializeInvocation env payer).accounts :=
    List.mem_cons_of_mem _ (List.mem_cons_of_mem _ List.mem_cons_self)
  have hcreate : createIfEmpty env (initializeInvocation env payer) l
      ⟨BridgeEnv.pda env, false, true⟩ ⟨payer, true, true⟩ =
      .ok (Function.update l (BridgeEnv.pda env)
        ⟨DOGE_BRIDGE_PROGRAM_ID, List.replicate BridgeState.pod.size 0⟩,
        [.call (createAccountCall env (initializeInvocation env payer) ⟨payer, true, true⟩
          ⟨BridgeEnv.pda env, false, true⟩)]) := by
    rw [createIfEmpty, if_pos (by rw [h]; rfl)]
    simp only [bind_ok, ensure_ok, exists_const, createDerived_ok, pure_ok, Prod.mk.injEq]
    exact ⟨⟨⟨_, hpayer, rfl, rfl⟩, ⟨_, hpayer, rfl, rfl⟩⟩, _, ⟨⟨_, hsystem, rfl⟩,
      initializeInvocation_writes env payer, rfl, by rw [h]; exact ⟨rfl, rfl⟩, rfl⟩, rfl, trivial⟩
  have howner : (Function.update l (BridgeEnv.pda env)
      ⟨DOGE_BRIDGE_PROGRAM_ID, List.replicate BridgeState.pod.size 0⟩ (BridgeEnv.pda env)).owner =
      DOGE_BRIDGE_PROGRAM_ID := by
    rw [Function.update_self]
  refine ⟨_, _, step_of_accepted rfl (.initializeBridge rfl rfl hcreate hread
    (writeState_ok.mpr ⟨.inr ⟨howner, initializeInvocation_writes env payer⟩, rfl⟩)), ?_⟩
  rw [Ledger.setData, Function.update_self, Function.update_idem, install]

theorem initialize_again (payer : Pubkey) (params : InitializeBridgeInstructionData)
    (h : Holds env l st) :
    ∃ l', Step env l
        (.bridge ⟨initializeInvocation env payer, .initializeBridge params, [], l, l'⟩) l' ∧
      l' = install env l ⟨PsyBridgeProgramState.initialized params, params.dogeMint⟩ := by
  refine ⟨_, step_of_accepted rfl (.initializeBridge rfl rfl ?_ (congrArg Account.data h)
    (writeState_ok.mpr ⟨.inr ⟨congrArg Account.owner h, initializeInvocation_writes env payer⟩,
      rfl⟩)), Holds.setData_eq_install h⟩
  have hlong : (l (BridgeEnv.pda env)).data.length ≠ 0 := by
    rw [show (l (BridgeEnv.pda env)).data = BridgeState.pod.encode st from congrArg Account.data h,
      Pod.encode_length]
    decide
  rw [createIfEmpty, if_neg hlong]
  rfl

abbrev initializeCall (params : InitializeBridgeInstructionData) (es : List Effect)
    (l l' : Ledger) : BridgeCall :=
  ⟨initializeInvocation cluster operatorKey, .initializeBridge params, es, l, l'⟩

abbrev genesisCall : List Effect → Ledger → Ledger → BridgeCall :=
  initializeCall (genesisParams operatorKey 10)

theorem genesis_step (h : l (BridgeEnv.pda cluster) = ⟨SYSTEM_PROGRAM_ID, []⟩) :
    ∃ es l', Step cluster l (.bridge (genesisCall es l l')) l' ∧
      l' = install cluster l (genesisState operatorKey 10) :=
  initialize_unused cluster l operatorKey (genesisParams operatorKey 10) h

/-- A stranger initializes a running bridge again: it gets another operator and goes back in
height. -/
theorem reinitialize_resets :
    ∃ es l₁ l₂,
      Step cluster emptyLedger (.bridge (genesisCall es emptyLedger l₁)) l₁ ∧
      Step cluster l₁ (.bridge ⟨initializeInvocation cluster strangerKey,
        .initializeBridge (genesisParams strangerKey 3), [], l₁, l₂⟩) l₂ ∧
      ∃ st₁ st₂, Holds cluster l₁ st₁ ∧ Holds cluster l₂ st₂ ∧ ¬ SameSetup st₁ st₂ ∧
        ¬ NoSmaller st₁ st₂ := by
  obtain ⟨es, _, h₁, rfl⟩ := genesis_step (l := emptyLedger) rfl
  obtain ⟨_, h₂, rfl⟩ := initialize_again strangerKey (genesisParams strangerKey 3)
    (install_holds _ _ _)
  refine ⟨es, _, _, h₁, h₂, _, _, install_holds _ _ _, install_holds _ _ _, ?_, ?_⟩
  · intro h
    exact absurd h.operator (by decide)
  · intro h
    exact absurd h.finalized (by decide)

def snapshotInvocation (env : BridgeEnv) (operator : Pubkey) : Invocation where
  programId := DOGE_BRIDGE_PROGRAM_ID
  accounts := [⟨BridgeEnv.pda env, false, true⟩, ⟨operator, true, false⟩, ⟨operator, true, true⟩]
  unixTimestamp := 0
  fundsSuffice := true

theorem snapshot_step (h : Holds env l st) :
    ∃ l', Step env l (.bridge ⟨snapshotInvocation env st.coreState.accessControl.operatorPubkey,
        .snapshotWithdrawals, [], l, l'⟩) l' ∧
      l' = install env l { st with coreState := st.coreState.snapshotForWithdrawal 0 } :=
  ⟨_, step_of_accepted rfl (.snapshotWithdrawals rfl rfl rfl (congrArg Account.data h) rfl
    (writeState_ok.mpr ⟨.inr ⟨congrArg Account.owner h, ⟨_, List.mem_cons_self, rfl, rfl⟩⟩, rfl⟩)),
    Holds.setData_eq_install h⟩

def strangerMint : Pubkey := Vector.replicate 32 5
def strangerTokens : Pubkey := Vector.replicate 32 6

def tokenLedger (mint : Pubkey) : Ledger :=
  Function.update
    (Function.update
      (Function.update emptyLedger strangerTokens (tokenAccount mint strangerKey 5000))
      strangerMint (mintAccount strangerKey 5000))
    mintKey (mintAccount bridgeState 5000)

def requestInvocation (env : BridgeEnv) (mint : Pubkey) : Invocation where
  programId := DOGE_BRIDGE_PROGRAM_ID
  accounts := [⟨BridgeEnv.pda env, false, true⟩, ⟨strangerTokens, false, true⟩,
    ⟨mint, false, true⟩, ⟨strangerKey, true, false⟩, ⟨TOKEN_PROGRAM_ID, false, false⟩]
  unixTimestamp := 0
  fundsSuffice := true

theorem request_step {request : PsyWithdrawalRequest} {mint : Pubkey} {core : PsyBridgeProgramState}
    (hs : Holds env l st)
    (run : st.coreState.processRequestWithdrawal env.crypto request.addressType
      request.recipientAddress request.amountSats = some core)
    (burn : Called env (requestInvocation env mint) ⟨[BridgeEnv.pda env], []⟩
      (burnCall ⟨strangerTokens, false, true⟩ ⟨mint, false, true⟩ ⟨strangerKey, true, false⟩
        request.amountSats)
      (l.setData (BridgeEnv.pda env) (BridgeState.pod.encode { st with coreState := core })) l') :
    Step env l (.bridge ⟨requestInvocation env mint, .requestWithdrawal request,
      [.call (burnCall ⟨strangerTokens, false, true⟩ ⟨mint, false, true⟩ ⟨strangerKey, true, false⟩
        request.amountSats)], l, l'⟩) l' :=
  step_of_accepted rfl (.requestWithdrawal rfl (congrArg Account.data hs) run
    (writeState_ok.mpr ⟨.inr ⟨congrArg Account.owner hs, ⟨BridgeEnv.pda env, false, true⟩,
      List.mem_cons_self, rfl, rfl⟩, rfl⟩) burn)

def sampleRequest : PsyWithdrawalRequest := ⟨1000, 0, Vector.replicate 20 0⟩

abbrev requestCall (mint : Pubkey) (es : List Effect) (l l' : Ledger) : BridgeCall :=
  ⟨requestInvocation cluster mint, .requestWithdrawal sampleRequest, es, l, l'⟩

theorem tokenLedger_burnable {mint : Pubkey} (hmint : mint = mintKey ∨ mint = strangerMint) :
    SplToken.IsMint (tokenLedger mint mint) ∧
      SplToken.IsTokenAccount (tokenLedger mint strangerTokens) mint ∧
      slice (tokenLedger mint strangerTokens).data 32 32 = strangerKey.toList ∧
      1000 ≤ SplToken.supply (tokenLedger mint mint) ∧
      1000 ≤ SplToken.balance (tokenLedger mint strangerTokens) := by
  rcases hmint with rfl | rfl
  · decide +kernel
  · decide +kernel

theorem genesis_requested : ∃ core,
    (genesisState operatorKey 10).coreState.processRequestWithdrawal cluster.crypto
      sampleRequest.addressType sampleRequest.recipientAddress sampleRequest.amountSats =
        some core ∧
    core.requestedWithdrawalsTree.nextIndex = 1 ∧ core.nextProcessedWithdrawalsIndex = 0 ∧
    core.accessControl.operatorPubkey = operatorKey :=
  ⟨_, PsyBridgeProgramState.processRequestWithdrawal_some.mpr
    ⟨⟨10, 990⟩, by decide, by decide, by decide, rfl⟩, rfl, rfl, rfl⟩

/-- A request on the cluster, with tokens of the mint of the bridge or of a mint of a stranger. -/
theorem cluster_request {mint : Pubkey} {core : PsyBridgeProgramState}
    (hmint : mint = mintKey ∨ mint = strangerMint) (hs : Holds cluster l st)
    (hm : l mint = tokenLedger mint mint)
    (ht : l strangerTokens = tokenLedger mint strangerTokens)
    (hrun : st.coreState.processRequestWithdrawal cluster.crypto sampleRequest.addressType
      sampleRequest.recipientAddress sampleRequest.amountSats = some core) :
    ∃ es l', Step cluster l (.bridge (requestCall mint es l l')) l' ∧
      Holds cluster l' { st with coreState := core } ∧
      ∀ k, k ≠ bridgeState → k ≠ mint → k ≠ strangerTokens → l' k = l k := by
  have hmintFar : mint ≠ BridgeEnv.pda cluster := by
    rw [cluster_pda]
    rcases hmint with rfl | rfl
    · decide
    · decide
  have htokensFar : strangerTokens ≠ BridgeEnv.pda cluster := ne_pda (by decide)
  obtain ⟨hmintData, htokens, howner, hsupply, hbalance⟩ := tokenLedger_burnable hmint
  have hinstalled : l.setData (BridgeEnv.pda cluster) (BridgeState.pod.encode
    { st with coreState := core }) = install cluster l { st with coreState := core } :=
    Holds.setData_eq_install hs
  generalize hl₁ : install cluster l { st with coreState := core } = l₁ at hinstalled
  have hkept {k : Pubkey} (hk : k ≠ BridgeEnv.pda cluster) : l₁ k = l k := by
    rw [← hl₁, install_of_ne hk]
  have hburn : SplToken.burn l₁ ⟨strangerTokens, false, true⟩ ⟨mint, false, true⟩
      ⟨strangerKey, true, false⟩ 1000 = some (SplToken.settle l₁ mint strangerTokens
        (SplToken.supply (l₁ mint) - 1000) (SplToken.balance (l₁ strangerTokens) - 1000)) := by
    rw [SplToken.burn, if_pos]
    dsimp only
    rw [hkept hmintFar, hkept htokensFar, hm, ht]
    exact ⟨hmintData, htokens, rfl, rfl, rfl, howner, hsupply, hbalance⟩
  have hcalled : Called cluster (requestInvocation cluster mint) ⟨[BridgeEnv.pda cluster], []⟩
      (burnCall ⟨strangerTokens, false, true⟩ ⟨mint, false, true⟩ ⟨strangerKey, true, false⟩ 1000)
        l₁
      (SplToken.settle l₁ mint strangerTokens
        (SplToken.supply (l₁ mint) - 1000) (SplToken.balance (l₁ strangerTokens) - 1000)) := by
    refine ⟨?_, ?_, ?_, ?_⟩
    · rcases hmint with rfl | rfl
      · decide +kernel
      · decide +kernel
    · rcases hmint with rfl | rfl
      · decide +kernel
      · decide +kernel
    · rcases hmint with rfl | rfl
      · decide +kernel
      · decide +kernel
    · rw [callee_token rfl rfl, ← hburn]
      exact cluster_burn 1000
  rw [← hinstalled] at hcalled
  refine ⟨_, _, request_step hs hrun hcalled, ?_, ?_⟩
  all_goals rw [hinstalled]
  · rw [Holds, SplToken.settle_of_ne hmintFar.symm htokensFar.symm, ← hl₁]
    exact install_holds _ _ _
  · intro k hk hkm hkt
    rw [SplToken.settle_of_ne hkm hkt, hkept (ne_pda hk)]

theorem requestInvocation_on (env : BridgeEnv) (mint : Pubkey) :
    onAccount (requestInvocation env mint) (BridgeEnv.pda env) := ⟨_, _, rfl, rfl⟩

theorem snapshotInvocation_on (env : BridgeEnv) (operator : Pubkey) :
    onAccount (snapshotInvocation env operator) (BridgeEnv.pda env) := ⟨_, _, rfl, rfl⟩

theorem tokenLedger_unused (mint : Pubkey) :
    tokenLedger mint (BridgeEnv.pda cluster) = ⟨SYSTEM_PROGRAM_ID, []⟩ := by
  have htokens : bridgeState ≠ strangerTokens := by decide
  have hstranger : bridgeState ≠ strangerMint := by decide
  have hmint : bridgeState ≠ mintKey := by decide
  rw [cluster_pda, tokenLedger, Function.update_of_ne hmint, Function.update_of_ne hstranger,
    Function.update_of_ne htokens]
  rfl

/-- An instance of `setup_kept_and_counters_grow`: INITIALIZE, then a request, which moves the
counter of the requests. -/
theorem setup_kept_by_request :
    ∃ es es' l₁ l₂,
      Step cluster (tokenLedger mintKey) (.bridge (genesisCall es (tokenLedger mintKey) l₁)) l₁ ∧
      Step cluster l₁ (.bridge (requestCall mintKey es' l₁ l₂)) l₂ ∧
      ∃ st st', Holds cluster l₁ st ∧ Holds cluster l₂ st' ∧ SameSetup st st' ∧ NoSmaller st st' ∧
        st.coreState.requestedWithdrawalsTree.nextIndex = 0 ∧
        st'.coreState.requestedWithdrawalsTree.nextIndex = 1 := by
  obtain ⟨es, l₁, h₁, hl₁⟩ := genesis_step (tokenLedger_unused mintKey)
  have hs₁ : Holds cluster l₁ (genesisState operatorKey 10) := hl₁ ▸ install_holds _ _ _
  obtain ⟨core, hrun, hnext, -⟩ := genesis_requested
  obtain ⟨es', l₂, h₂, hs₂, -⟩ := cluster_request (.inl rfl) hs₁
    (hl₁ ▸ cluster_install_of_ne (by decide)) (hl₁ ▸ cluster_install_of_ne (by decide)) hrun
  obtain ⟨st, st', hst, hst', hsame, hgrow⟩ := setup_kept_and_counters_grow cluster_guarded h₁ rfl
    (congrArg Account.data (tokenLedger_unused mintKey)) (.nil l₁) (.single h₂) (by
      rw [List.nil_append, List.forall_mem_singleton]
      intro _ st hst
      rw [Holds.unique hst hs₁]
      change (0 : UInt64) ≠ 0xFFFFFFFFFFFFFFFF
      decide)
  refine ⟨es, es', l₁, l₂, h₁, h₂, st, st', hst, hst', hsame, hgrow, ?_, ?_⟩
  · rw [Holds.unique hst hs₁]
    rfl
  · rw [Holds.unique hst' hs₂]
    exact hnext

end StateHistory
