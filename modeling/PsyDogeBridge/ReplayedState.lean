import PsyDogeBridge.RecordedBuffer

/-! The bridge as an observer sees it. From the accepted instructions alone (their data, account
lists and clocks) the observer recomputes the state except the backlog of mints, which depends on
the buffers, and with it the public inputs of every proof that the bridge checked. -/
namespace ReplayedState

open CheckedSteps SolanaRuntime BridgeData ProgramState BlockTransition BridgeCalls BridgeProcessor
  AcceptedInstructions BridgeSystem LocalCluster StateHistory StateRuns BacklogSteps RecordedBuffer

variable {env : BridgeEnv} {st st' : BridgeState} {call : BridgeCall}
  {cs earlier later : List BridgeCall}

def hideBacklog (s : PsyBridgeProgramState) : PsyBridgeProgramState :=
  { s with pendingMintTxos := .default }

def observed (st : BridgeState) : BridgeState := { st with coreState := hideBacklog st.coreState }

/-- What an accepted instruction makes of the observed state. -/
def observe (env : BridgeEnv) (s : PsyBridgeProgramState) (inv : Invocation) :
    BridgeInstruction → PsyBridgeProgramState
  | .initializeBridge params => .initialized params
  | .blockUpdate fixed _ _ =>
    match setRecentFinalizedBlock s fixed.header.finalizedState with
    | .ok recent => { s with
        bridgeHeader := fixed.header
        recentFinalizedBlocks := recent
        nextRecentFinalizedBlockIndex := (s.nextRecentFinalizedBlockIndex + 1) % 8 }
    | .error _ => s
  | .processReorgBlocks fixed _ _ _ => { s with bridgeHeader := fixed.header }
  | .requestWithdrawal request =>
    (s.processRequestWithdrawal env.crypto request.addressType request.recipientAddress
      request.amountSats).getD s
  | .processWithdrawal params => s.updateForWithdrawal env.crypto params.newReturnOutput
      params.newSpentTxoTreeRoot params.newNextProcessedWithdrawalsIndex
  | .operatorWithdrawFees => { s with totalFeesWithdrawnSats := s.getTotalFinalizedFees }
  | .processManualDeposit params =>
    match s.processManualClaimedDeposit env.crypto params.txHash params.recentBlockMerkleTreeRoot
      params.recentAutoClaimTxoRoot params.combinedTxoIndex
      ((inv.accounts.map AccountInfo.key).getD 1 zeroBytes) params.depositAmountSats with
    | .ok (s', _) => s'
    | .error _ => s
  | .replayWithdrawal =>
    { s with lastProcessedWithdrawalsAtMs := (replayTime inv s).toUInt64 * 1000 }
  | .snapshotWithdrawals => s.snapshotForWithdrawal (currentTimestamp inv)
  | .processMintGroup .. | .processMintGroupAutoAdvance .. => s

def observeMint (mint : Pubkey) : BridgeInstruction → Pubkey
  | .initializeBridge params => params.dogeMint
  | _ => mint

def replay (env : BridgeEnv) (params : InitializeBridgeInstructionData) (cs : List BridgeCall) :
    BridgeState :=
  cs.foldl (fun st call =>
    ⟨observe env st.coreState call.inv call.ix, observeMint st.dogeMint call.ix⟩)
    ⟨.initialized params, params.dogeMint⟩

/-- The instruction carries no proof, or one that holds for the inputs computed from `s`. -/
def Verified (env : BridgeEnv) (s : PsyBridgeProgramState) : BridgeInstruction → Prop
  | .blockUpdate fixed _ _ => env.crypto.verifyCompactZkpSlice fixed.proof.toList
      (SINGLE_BLOCK_UPDATE_VK env.features).toList (getBlockTransitionPublicInputs env.crypto
        (s.bridgeHeader.getHashCanonical env.crypto) (fixed.header.getHashCanonical env.crypto)
        (s.configParams.getHash env.crypto) s.custodianWalletConfigHash).toList = true
  | .processReorgBlocks fixed extra _ _ => env.crypto.verifyCompactZkpSlice fixed.proof.toList
      (BLOCK_REORG_VK env.features).toList (getReorgBlockTransitionPublicInputs env.crypto
        (s.bridgeHeader.getHashCanonical env.crypto) (fixed.header.getHashCanonical env.crypto)
        extra (s.configParams.getHash env.crypto) s.custodianWalletConfigHash).toList = true
  | .processWithdrawal params => env.crypto.verifyCompactZkpSlice params.proof.toList
      (WITHDRAWAL_VK env.features).toList (s.getExpectedPublicInputsForWithdrawalProof env.crypto
        params.newReturnOutput params.newSpentTxoTreeRoot
        params.newNextProcessedWithdrawalsIndex).toList = true
  | _ => True

def height (st : BridgeState) : UInt32 := st.coreState.bridgeHeader.finalizedState.blockHeight

/-- The number of blocks that an instruction adds to the chain of the bridge. -/
def announced : BridgeInstruction → ℕ
  | .blockUpdate .. => 1
  | .processReorgBlocks _ extra _ _ => extra.length + 1
  | _ => 0

section Steps

variable {c : Crypto} {s s' : PsyBridgeProgramState}

theorem hideBacklog_request {addressType : UInt32} {address : Vector UInt8 20} {amount : UInt64} :
    (hideBacklog s).processRequestWithdrawal c addressType address amount =
      (s.processRequestWithdrawal c addressType address amount).map hideBacklog := by
  unfold PsyBridgeProgramState.processRequestWithdrawal
  rw [apply_ite (Option.map hideBacklog)]
  rfl

theorem hideBacklog_deposit {txHash blockRoot autoRoot : QHash256} {index : UInt64}
    {ata : Vector UInt8 32} {amount minted : UInt64}
    (h : s.processManualClaimedDeposit c txHash blockRoot autoRoot index ata amount =
      .ok (s', minted)) :
    (hideBacklog s).processManualClaimedDeposit c txHash blockRoot autoRoot index ata amount =
      .ok (hideBacklog s', minted) := by
  obtain ⟨hrecent, hroot, r, hfee, hfees, hrest, rfl, rfl⟩ :=
    PsyBridgeProgramState.processManualClaimedDeposit_ok.mp h
  exact PsyBridgeProgramState.processManualClaimedDeposit_ok.mpr
    ⟨hrecent, hroot, r, hfee, hfees, hrest, rfl, rfl⟩

theorem CallStep.observed (hg : Guarded env.platform) (h : CallStep env st call st') :
    hideBacklog st'.coreState = observe env (hideBacklog st.coreState) call.inv call.ix := by
  obtain ⟨inv, ix, effects, l, l'⟩ := call
  have haccepted : Accepted env inv l ix l' effects := h.accepted
  have hupdate := StateStep.update h.step
  cases haccepted with
  | blockUpdate =>
    cases hupdate with
    | blockUpdate ring =>
      have hvisible : setRecentFinalizedBlock (hideBacklog st.coreState) _ = .ok _ := ring
      dsimp only [observe]
      rw [hvisible]
      rfl
  | requestWithdrawal accounts read run write burn =>
    obtain ⟨rfl, rfl⟩ := h.written accounts read write (callee_untouched hg burn.2.2.2)
    dsimp only [observe]
    rw [hideBacklog_request, run]
    rfl
  | processManualDeposit accounts _ _ read run write mint =>
    obtain ⟨rfl, rfl⟩ := h.written accounts read write (callee_untouched hg mint.2.2.2)
    dsimp only [observe]
    rw [accounts, List.map_cons, List.map_cons, List.getD_cons_succ, List.getD_cons_zero,
      hideBacklog_deposit run]
  | replayWithdrawal accounts _ _ read _ _ _ _ _ run write post =>
    obtain ⟨rest, accounts⟩ := accounts
    obtain ⟨rfl, rfl⟩ := h.written accounts read write (posted_untouched hg post)
    obtain ⟨-, -, rfl⟩ := PsyBridgeProgramState.processReplayWithdrawalProof_ok.mp run
    rfl
  | snapshotWithdrawals accounts _ _ read _ write =>
    obtain ⟨rfl, rfl⟩ := h.written accounts read write (.refl _ _)
    rfl
  | _ =>
    cases hupdate
    rfl

theorem CallStep.observedMint (h : CallStep env st call st') :
    st'.dogeMint = observeMint st.dogeMint call.ix := by
  obtain ⟨inv, ix, effects, l, l'⟩ := call
  cases StateStep.update h.step <;> rfl

theorem CallStep.verified (h : CallStep env st call st') :
    Verified env (hideBacklog st.coreState) call.ix := by
  obtain ⟨inv, ix, effects, l, l'⟩ := call
  obtain ⟨a, rest, hacc, hkey⟩ := h.on
  have haccepted : Accepted env inv l ix l' effects := h.accepted
  cases haccepted with
  | blockUpdate run =>
    obtain ⟨_, _, -, _, _, run, _⟩ := blockUpdated_on h.before hacc hkey run
    exact (runTransition_single.mp run).proven
  | processReorgBlocks run =>
    obtain ⟨_, _, -, _, _, run, _⟩ := blockUpdated_on h.before hacc hkey run
    exact (runTransition_reorg.mp run).proven
  | processWithdrawal accounts _ _ read _ _ run =>
    obtain ⟨rest, accounts⟩ := accounts
    obtain rfl := h.read_first accounts read
    exact (PsyBridgeProgramState.runProcessBridgeWithdrawal_ok.mp run).2.1
  | _ => trivial

theorem CallStep.announces (h : CallStep env st call st') (hinit : notInit call) :
    height st' = height st + UInt32.ofNat (announced call.ix) := by
  obtain ⟨inv, ix, effects, l, l'⟩ := call
  have hupdate := StateStep.update h.step
  cases h.step with
  | initializeBridge params => exact absurd rfl (hinit params)
  | blockUpdate run =>
    obtain ⟨_, _, -, -, rfl⟩ := run.update
    exact run.height
  | processReorgBlocks run =>
    obtain ⟨_, -, rfl⟩ := run.update
    dsimp only [announced]
    rw [UInt32.ofNat_add, run.length, UInt32.ofNat_toNat, UInt32.add_comm]
    change _ = _ - 1 + 1 + _
    rw [UInt32.sub_add_cancel]
    exact (UInt32.sub_add_cancel _ _).symm
  | _ =>
    cases hupdate
    exact (UInt32.add_zero _).symm

end Steps

section Runs

/-- A run of the chain from the first INITIALIZE of the bridge on. -/
inductive BridgeRun (env : BridgeEnv) (params : InitializeBridgeInstructionData) :
    List Event → Ledger → Prop where
  | intro {init l₀ l₁ es l₂} (started : Step env l₀ (.bridge init) l₁)
      (isInit : init.ix = .initializeBridge params) (first : (l₀ (BridgeEnv.pda env)).data = [])
      (run : Run (Step env) l₁ es l₂) : BridgeRun env params es l₂

variable {params : InitializeBridgeInstructionData} {es : List Event} {l : Ledger}

theorem BridgeRun.state (hg : Guarded env.platform) (h : BridgeRun env params es l) :
    ∃ st, Holds env l st ∧
      Run (CallStep env) ⟨.initialized params, params.dogeMint⟩ (calls env es) st := by
  obtain ⟨started, isInit, first, run⟩ := h
  exact state_run hg run (started.initialized hg isInit first)

theorem run_replayed (hg : Guarded env.platform)
    (r : Run (CallStep env) ⟨.initialized params, params.dogeMint⟩ cs st) :
    observed st = replay env params cs := by
  refine r.history (P := fun _ cs st => observed st = replay env params cs) rfl ?_
  intro cs st₁ call st₂ _ ih h
  rw [observed, CallStep.observed hg h, CallStep.observedMint h, replay, List.foldl_append,
    ← replay, ← ih]
  rfl

theorem run_announced (r : Run (CallStep env) st cs st') (hinit : ∀ call ∈ cs, notInit call) :
    height st' = height st + UInt32.ofNat (cs.map fun call => announced call.ix).sum := by
  refine (r.restrict hinit).history (P := fun st cs st' => height st' = height st +
    UInt32.ofNat (cs.map fun call => announced call.ix).sum) (UInt32.add_zero _).symm ?_
  intro cs st₁ call st₂ _ ih ⟨h, hni⟩
  rw [CallStep.announces h hni, ih, List.map_append, List.sum_append, List.map_singleton,
    List.sum_singleton, UInt32.ofNat_add, UInt32.add_assoc]

theorem first_block_run : ∃ call l, call.ix = .blockUpdate firstBlock 253 254 ∧
    calls cluster [.bridge call] = [call] ∧
    BridgeRun cluster (genesisParams operatorKey 10) [.bridge call] l := by
  have hunused : depositLedger (BridgeEnv.pda cluster) = ⟨SYSTEM_PROGRAM_ID, []⟩ :=
    bufferLedger_unused _ _
  obtain ⟨es₁, _, h₁, rfl⟩ := genesis_step hunused
  obtain ⟨es₂, l, core, h₂, -⟩ :=
    firstBlock_updated (bufferLedger_mints _ _) (bufferLedger_txos _ _)
  have hstep := step_of_accepted rfl (.blockUpdate h₂)
  refine ⟨_, l, rfl, calls_single ?_,
    .intro h₁ rfl (congrArg Account.data hunused) (.single hstep)⟩
  exact updateInvocation_on _ _ _ _

/-- After any run of the chain, the state of the bridge is the one that its accepted instructions
replay to, up to the backlog. -/
theorem state_replayed (hg : Guarded env.platform) (h : BridgeRun env params es l) :
    ∃ st, Holds env l st ∧ observed st = replay env params (calls env es) := by
  obtain ⟨st, hs, hrun⟩ := h.state hg
  exact ⟨st, hs, run_replayed hg hrun⟩

theorem first_block_replayed : ∃ call l st,
    BridgeRun cluster (genesisParams operatorKey 10) [.bridge call] l ∧ Holds cluster l st ∧
    observed st = replay cluster (genesisParams operatorKey 10) [call] := by
  obtain ⟨call, l, -, hcalls, hrun⟩ := first_block_run
  obtain ⟨st, hs, hst⟩ := state_replayed cluster_guarded hrun
  rw [hcalls] at hst
  exact ⟨call, l, st, hrun, hs, hst⟩

/-- Every proof that the bridge took in the run holds for the public inputs computed from the
instructions before it. -/
theorem proofs_replayed (hg : Guarded env.platform) (h : BridgeRun env params es l)
    (split : calls env es = earlier ++ call :: later) :
    Verified env (replay env params earlier).coreState call.ix := by
  obtain ⟨_, -, hrun⟩ := h.state hg
  rw [split] at hrun
  obtain ⟨st, before, after⟩ := hrun.split
  obtain ⟨_, hcall, -⟩ := after.head
  rw [← run_replayed hg before]
  exact CallStep.verified hcall

theorem first_block_verified :
    Verified cluster (replay cluster (genesisParams operatorKey 10) []).coreState
      (.blockUpdate firstBlock 253 254) := by
  obtain ⟨call, l, hix, hcalls, hrun⟩ := first_block_run
  rw [← List.nil_append [call]] at hcalls
  rw [← hix]
  exact proofs_replayed cluster_guarded hrun hcalls

/-- Without another INITIALIZE the finalized height has advanced by the blocks that the accepted
updates announced. -/
theorem blocks_counted (hg : Guarded env.platform) (h : BridgeRun env params es l)
    (once : ∀ e ∈ es, ¬ isInitialize e) : ∃ st, Holds env l st ∧
    height st = params.bridgeHeader.finalizedState.blockHeight +
      UInt32.ofNat ((calls env es).map fun call => announced call.ix).sum := by
  obtain ⟨st, hs, hrun⟩ := h.state hg
  exact ⟨st, hs, run_announced hrun (calls_notInit once)⟩

theorem first_block_counted : ∃ call l st,
    BridgeRun cluster (genesisParams operatorKey 10) [.bridge call] l ∧ Holds cluster l st ∧
    height st = 11 := by
  obtain ⟨call, l, hix, hcalls, hrun⟩ := first_block_run
  obtain ⟨st, hs, hst⟩ := blocks_counted cluster_guarded hrun (by
    rw [List.forall_mem_singleton]
    cases call
    cases hix
    exact id)
  rw [hcalls, List.map_singleton, hix] at hst
  exact ⟨call, l, st, hrun, hs, hst⟩

end Runs

end ReplayedState
