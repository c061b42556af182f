import PsyDogeBridge.BridgeSystem

/-! Runs of the chain seen from the state of the bridge: the accepted instructions on it, and the
fields that each of them writes. -/
namespace StateRuns

open PodLayout CheckedSteps SolanaRuntime BridgeData AppendTree ProgramState BlockTransition
  BridgeCalls BridgeProcessor AcceptedInstructions BridgeSystem

variable {env : BridgeEnv} {ix : BridgeInstruction} {st st' : BridgeState} {l l' : Ledger}
  {e : Event} {es : List Event}

theorem setup_core {c : Crypto} {s s' : PsyBridgeProgramState} {bridge account : Vector UInt8 32}
    {txoMem mintMem : Bytes}
    (h : runSetupNextPendingBuffer c s bridge account txoMem mintMem = .ok s') :
    s' = { s with pendingMintTxos := s'.pendingMintTxos } := by
  simp only [runSetupNextPendingBuffer, bind_ok, pure_ok, Prod.exists] at h
  obtain ⟨-, -, -, -, -, -, m, -, -, -, -, -, -, -, e, -, _, _, -, _, -, -, -, rfl⟩ := h
  rfl

theorem le_add_one_32 {n : UInt32} (h : n ≠ 0xFFFFFFFF) : n ≤ n + 1 := by
  have h1 : (1 : UInt32).toNat = 1 := rfl
  have hm : (0xFFFFFFFF : UInt32).toNat = 4294967295 := rfl
  have hn : n.toNat ≠ 4294967295 := fun k => h (UInt32.toNat_inj.mp (k.trans hm.symm))
  have := n.toNat_lt
  rw [UInt32.le_iff_toNat_le, UInt32.toNat_add, h1]
  omega

theorem le_add_one_64 {n : UInt64} (h : n ≠ 0xFFFFFFFFFFFFFFFF) : n ≤ n + 1 := by
  have h1 : (1 : UInt64).toNat = 1 := rfl
  have hm : (0xFFFFFFFFFFFFFFFF : UInt64).toNat = 18446744073709551615 := rfl
  have hn : n.toNat ≠ 18446744073709551615 := fun k => h (UInt64.toNat_inj.mp (k.trans hm.symm))
  have := n.toNat_lt
  rw [UInt64.le_iff_toNat_le, UInt64.toNat_add, h1]
  omega

def withCore (st : BridgeState) (core : PsyBridgeProgramState) : BridgeState :=
  { st with coreState := core }

inductive Update (env : BridgeEnv) (st : BridgeState) : BridgeInstruction → BridgeState → Prop where
  | initializeBridge (params : InitializeBridgeInstructionData) :
      Update env st (.initializeBridge params)
        ⟨PsyBridgeProgramState.initialized params, params.dogeMint⟩
  | blockUpdate {fixed mintBump txoBump m recent}
      (ring : setRecentFinalizedBlock st.coreState fixed.header.finalizedState = .ok recent) :
      Update env st (.blockUpdate fixed mintBump txoBump) (withCore st { st.coreState with
        pendingMintTxos := m
        bridgeHeader := fixed.header
        recentFinalizedBlocks := recent
        nextRecentFinalizedBlockIndex := (st.coreState.nextRecentFinalizedBlockIndex + 1) % 8 })
  | processReorgBlocks {fixed extra mintBump txoBump m} :
      Update env st (.processReorgBlocks fixed extra mintBump txoBump) (withCore st
        { st.coreState with pendingMintTxos := m, bridgeHeader := fixed.header })
  | requestWithdrawal {request : PsyWithdrawalRequest} {r : FeeResult}
      (fee : calcuateWithdrawalFee request.amountSats
        st.coreState.configParams.withdrawalFlatFeeSats
        st.coreState.configParams.withdrawalFeeRateNumerator
        st.coreState.configParams.withdrawalFeeRateDenominator = some r) :
      Update env st (.requestWithdrawal request) (withCore st { st.coreState with
        totalWithdrawalFeesSats := st.coreState.totalWithdrawalFeesSats + r.feesGenerated
        requestedWithdrawalsTree := st.coreState.requestedWithdrawalsTree.append env.crypto
          (PsyWithdrawalRequest.toLeaf
            ⟨r.amountAfterFees, request.addressType, request.recipientAddress⟩)
        totalRequestedWithdrawalsSats :=
          st.coreState.totalRequestedWithdrawalsSats + request.amountSats })
  | processWithdrawal {params} :
      Update env st (.processWithdrawal params) (withCore st
        (st.coreState.updateForWithdrawal env.crypto params.newReturnOutput
          params.newSpentTxoTreeRoot params.newNextProcessedWithdrawalsIndex))
  | operatorWithdrawFees
      (due : st.coreState.totalFeesWithdrawnSats < st.coreState.getTotalFinalizedFees) :
      Update env st .operatorWithdrawFees (withCore st { st.coreState with
        totalFeesWithdrawnSats := st.coreState.getTotalFinalizedFees })
  | processManualDeposit {params recipient} {r : FeeResult}
      (fee : calcuateDepositFee params.depositAmountSats
        st.coreState.configParams.depositFlatFeeSats
        st.coreState.configParams.depositFeeRateNumerator
        st.coreState.configParams.depositFeeRateDenominator = some r) :
      Update env st (.processManualDeposit params) (withCore st { st.coreState with
        totalManualDepositFeesSats := st.coreState.totalManualDepositFeesSats + r.feesGenerated
        manualDepositsTree := st.coreState.manualDepositsTree.append env.crypto
          (hashDepositLeaf env.crypto params.txHash params.combinedTxoIndex recipient
            r.amountAfterFees) })
  | replayWithdrawal {now : UInt32} :
      Update env st .replayWithdrawal (withCore st { st.coreState with
        lastProcessedWithdrawalsAtMs := now.toUInt64 * 1000 })
  | processMintGroup {groupIndex bump shouldUnlock m} :
      Update env st (.processMintGroup groupIndex bump shouldUnlock) (withCore st
        { st.coreState with pendingMintTxos := m })
  | processMintGroupAutoAdvance {groupIndex mintBump txoBump shouldUnlock m} :
      Update env st (.processMintGroupAutoAdvance groupIndex mintBump txoBump shouldUnlock)
        (withCore st { st.coreState with pendingMintTxos := m })
  | snapshotWithdrawals {now} :
      Update env st .snapshotWithdrawals (withCore st (st.coreState.snapshotForWithdrawal now))

theorem StateStep.update (h : StateStep env ix st st') : Update env st ix st' := by
  cases h with
  | initializeBridge params => exact .initializeBridge params
  | blockUpdate run =>
    obtain ⟨_, _, -, hring, rfl⟩ := run.update
    exact .blockUpdate hring
  | processReorgBlocks run =>
    obtain ⟨_, -, rfl⟩ := run.update
    exact .processReorgBlocks
  | requestWithdrawal run =>
    obtain ⟨_, hfee, -, -, rfl⟩ := PsyBridgeProgramState.processRequestWithdrawal_some.mp run
    exact .requestWithdrawal hfee
  | processWithdrawal run =>
    obtain ⟨-, -, rfl, -⟩ := PsyBridgeProgramState.runProcessBridgeWithdrawal_ok.mp run
    exact .processWithdrawal
  | operatorWithdrawFees run =>
    obtain ⟨hdue, -, rfl⟩ := PsyBridgeProgramState.runBridgeOperatorWithdrawFeesPrecheck_ok.mp run
    exact .operatorWithdrawFees hdue
  | processManualDeposit run =>
    obtain ⟨-, -, _, hfee, -, -, rfl, -⟩ :=
      PsyBridgeProgramState.processManualClaimedDeposit_ok.mp run
    exact .processManualDeposit hfee
  | replayWithdrawal run =>
    obtain ⟨-, -, rfl⟩ := PsyBridgeProgramState.processReplayWithdrawalProof_ok.mp run
    exact .replayWithdrawal
  | processMintGroup run =>
    rw [run.state]
    exact .processMintGroup
  | processMintGroupAutoAdvance setup run =>
    rw [run.state]
    rcases setup with rfl | ⟨_, _, _, hs⟩
    · exact .processMintGroupAutoAdvance
    · rw [setup_core hs]
      exact .processMintGroupAutoAdvance
  | snapshotWithdrawals => exact .snapshotWithdrawals

def onState (env : BridgeEnv) : Event → Option BridgeCall
  | .bridge call =>
    if call.inv.accounts.head?.map AccountInfo.key = some (BridgeEnv.pda env) then some call
    else none
  | _ => none

def calls (env : BridgeEnv) (es : List Event) : List BridgeCall := es.filterMap (onState env)

structure CallStep (env : BridgeEnv) (st : BridgeState) (call : BridgeCall) (st' : BridgeState) :
    Prop where
  on : call.on (BridgeEnv.pda env)
  before : Holds env call.before st
  after : Holds env call.after st'
  program : call.inv.programId = DOGE_BRIDGE_PROGRAM_ID
  accepted : Accepted env call.inv call.before call.ix call.after call.effects
  step : StateStep env call.ix st st'

variable {call : BridgeCall}

theorem CallStep.read (h : CallStep env st call st') :
    BridgeState.pod.decode (call.before (BridgeEnv.pda env)).data = st := by
  rw [show call.before (BridgeEnv.pda env) = _ from h.before]
  exact Pod.decode_encode _ _

theorem CallStep.read_first {a : AccountInfo} {rest : List AccountInfo}
    {st₀ : BridgeState} (h : CallStep env st call st') (hacc : call.inv.accounts = a :: rest)
    (hread : (call.before a.key).data = BridgeState.pod.encode st₀) : st₀ = st := by
  obtain ⟨a', rest', hacc', hkey⟩ := h.on
  rw [hacc] at hacc'
  cases hacc'
  rw [hkey, show call.before (BridgeEnv.pda env) = _ from h.before] at hread
  exact (BridgeState.pod.encode_injective hread).symm

/-- The state that an accepted instruction wrote is the state after it. -/
theorem CallStep.written {a : AccountInfo} {rest : List AccountInfo}
    {st₀ st₁ : BridgeState} {l₁ : Ledger} (h : CallStep env st call st')
    (accounts : call.inv.accounts = a :: rest)
    (read : (call.before a.key).data = BridgeState.pod.encode st₀)
    (write : writeState call.inv call.before a.key st₁ = .ok l₁)
    (kept : Untouched ofBridge l₁ call.after) : st₀ = st ∧ st' = st₁ := by
  obtain ⟨a', rest', hacc, hkey⟩ := h.on
  rw [accounts] at hacc
  cases hacc
  rcases Rewrites.holds (rewrites_of_writeState h.program read write kept) h.before with
    ⟨-, hst, hafter⟩ | ⟨hne, -⟩
  · exact ⟨hst, Holds.unique h.after hafter⟩
  · exact absurd hkey hne

theorem onState_bridge {call call' : BridgeCall} (h : onState env (.bridge call) = some call') :
    call' = call ∧ call.on (BridgeEnv.pda env) := by
  rw [onState] at h
  by_cases hhead : call.inv.accounts.head?.map AccountInfo.key = some (BridgeEnv.pda env)
  · rw [if_pos hhead] at h
    refine ⟨(Option.some.inj h).symm, ?_⟩
    cases hacc : call.inv.accounts with
    | nil =>
      rw [hacc] at hhead
      cases hhead
    | cons a rest =>
      rw [hacc] at hhead
      exact ⟨a, rest, hacc, Option.some.inj hhead⟩
  · rw [if_neg hhead] at h
    cases h

theorem onState_of_on (h : call.on (BridgeEnv.pda env)) :
    onState env (.bridge call) = some call := by
  obtain ⟨a, rest, hacc, hkey⟩ := h
  rw [onState, hacc, if_pos (by rw [← hkey]; rfl)]

theorem calls_single (h : call.on (BridgeEnv.pda env)) :
    calls env [.bridge call] = [call] := List.filterMap_cons_some (onState_of_on h)

theorem calls_append (es es' : List Event) :
    calls env (es ++ es') = calls env es ++ calls env es' :=
  List.filterMap_append

theorem Step.callStep (hg : Guarded env.platform) (h : Step env l e l') (hs : Holds env l st) :
    ∃ st', Holds env l' st' ∧ Stutters (CallStep env) st (onState env e) st' := by
  cases he : onState env e with
  | none =>
    obtain ⟨st', hs', heq | ⟨call, rfl, hon, -⟩⟩ := h.holds hg hs
    · exact ⟨st', hs', heq⟩
    · rw [onState_of_on hon] at he
      cases he
  | some call =>
    cases e with
    | bridge call' =>
      obtain ⟨rfl, hon⟩ := onState_bridge he
      obtain ⟨a, rest, hacc, hkey⟩ := hon
      obtain ⟨hbefore, hafter, hp, ha⟩ := h.accepted
      cases Accepted.effected hg hp ha with
      | @found a' rest' st₀ st' hacc' hstep hrw =>
        rw [hacc] at hacc'
        cases hacc'
        rcases Rewrites.holds hrw hs with ⟨-, rfl, hs'⟩ | ⟨hne, -⟩
        · exact ⟨st', hs', ⟨a, rest, hacc, hkey⟩, hbefore ▸ hs, hafter ▸ hs',
            hp, by rw [hbefore, hafter]; exact ha, hstep⟩
        · exact absurd hkey hne
      | created _ unused _ =>
        have ho := (congrArg Account.owner unused).symm.trans (congrArg Account.owner hs)
        exact absurd ho system_ne_bridge
    | buffer => cases he
    | other => cases he

/-- Seen from its state, every run of the chain is a run of accepted instructions. -/
theorem state_run (hg : Guarded env.platform) (r : Run (Step env) l es l')
    (hs : Holds env l st) :
    ∃ st', Holds env l' st' ∧ Run (CallStep env) st (calls env es) st' :=
  r.simulate (fun _ _ _ _ hs h => Step.callStep hg h hs) hs

def notInit (call : BridgeCall) : Prop := ∀ params, call.ix ≠ .initializeBridge params

theorem calls_notInit (h : ∀ e ∈ es, ¬ isInitialize e) : ∀ call ∈ calls env es, notInit call := by
  intro call hcall params hix
  obtain ⟨e, he, hon⟩ := List.mem_filterMap.mp hcall
  cases e with
  | bridge call' =>
    obtain ⟨rfl, -⟩ := onState_bridge hon
    apply h _ he
    cases call
    cases hix
    trivial
  | buffer => cases hon
  | other => cases hon

theorem mem_of_mem_calls (h : call ∈ calls env es) :
    Event.bridge call ∈ es ∧ call.on (BridgeEnv.pda env) := by
  obtain ⟨e, he, hon⟩ := List.mem_filterMap.mp h
  cases e with
  | bridge call' =>
    obtain ⟨rfl, hon'⟩ := onState_bridge hon
    exact ⟨he, hon'⟩
  | buffer => cases hon
  | other => cases hon

section Runs

variable {cs : List BridgeCall}

/-- A tree to which each instruction appends its leaf, if it has one, holds the leaves of the run
after those it started with. -/
theorem run_appended {tree : PsyBridgeProgramState → FixedMerkleAppendTree}
    {leaf : BridgeCall → Option QHash256}
    (hstep : ∀ st call st', CallStep env st call st' → notInit call → tree st'.coreState =
      (leaf call).toList.foldl (FixedMerkleAppendTree.append env.crypto) (tree st.coreState))
    (r : Run (CallStep env) st cs st') (hinit : ∀ call ∈ cs, notInit call) :
    tree st'.coreState = (cs.filterMap leaf).foldl (FixedMerkleAppendTree.append env.crypto)
      (tree st.coreState) := by
  refine (r.restrict hinit).history
    (P := fun st cs st' => tree st'.coreState = (cs.filterMap leaf).foldl
      (FixedMerkleAppendTree.append env.crypto) (tree st.coreState)) rfl ?_
  intro cs st₁ call st₂ _ ih h
  rw [hstep st₁ call st₂ h.1 h.2, ih, ← List.foldl_append, List.filterMap_append]
  congr 2

def newHeader : BridgeInstruction → Option PsyBridgeHeader
  | .initializeBridge params => some params.bridgeHeader
  | .blockUpdate fixed _ _ => some fixed.header
  | .processReorgBlocks fixed _ _ _ => some fixed.header
  | _ => none

def lowHeight (h : PsyBridgeHeader) : Prop := h.finalizedState.blockHeight < 0xFFFFFFFF

instance : DecidablePred lowHeight := fun _ => inferInstanceAs (Decidable (_ < _))

def keepsLow (call : BridgeCall) : Prop := ∀ h, newHeader call.ix = some h → lowHeight h

/-- As long as the heights are low, the finalized height does not fall. -/
theorem CallStep.height (h : CallStep env st call st') (hinit : notInit call)
    (hlow : lowHeight st.coreState.bridgeHeader) (hkeeps : keepsLow call) :
    lowHeight st'.coreState.bridgeHeader ∧ st.coreState.bridgeHeader.finalizedState.blockHeight ≤
      st'.coreState.bridgeHeader.finalizedState.blockHeight := by
  obtain ⟨inv, ix, effects, l, l'⟩ := call
  have hupdate := StateStep.update h.step
  have hsame := And.intro hlow
    (UInt32.le_refl st.coreState.bridgeHeader.finalizedState.blockHeight)
  cases h.step with
  | initializeBridge params => exact absurd rfl (hinit params)
  | blockUpdate run =>
    obtain ⟨_, _, -, -, rfl⟩ := run.update
    refine ⟨hkeeps _ rfl, run.height ▸ le_add_one_32 fun hlast => ?_⟩
    rw [lowHeight, hlast] at hlow
    exact absurd hlow (by decide)
  | processReorgBlocks run =>
    obtain ⟨_, -, rfl⟩ := run.update
    exact ⟨hkeeps _ rfl, UInt32.le_of_lt (UInt32.not_le.mp run.height)⟩
  | _ =>
    cases hupdate
    exact hsame

theorem run_height (r : Run (CallStep env) st cs st') (hinit : ∀ call ∈ cs, notInit call)
    (hlow : lowHeight st.coreState.bridgeHeader) (hkeeps : ∀ call ∈ cs, keepsLow call) :
    lowHeight st'.coreState.bridgeHeader ∧ st.coreState.bridgeHeader.finalizedState.blockHeight ≤
      st'.coreState.bridgeHeader.finalizedState.blockHeight := by
  refine ((r.restrict hinit).restrict hkeeps).history (P := fun st _ st' =>
    lowHeight st'.coreState.bridgeHeader ∧ st.coreState.bridgeHeader.finalizedState.blockHeight ≤
      st'.coreState.bridgeHeader.finalizedState.blockHeight) ⟨hlow, UInt32.le_refl _⟩ ?_
  intro _ st₁ call st₂ _ ih h
  obtain ⟨hlow', hle⟩ := CallStep.height h.1.1 h.1.2 ih.1 h.2
  exact ⟨hlow', UInt32.le_trans ih.2 hle⟩

end Runs

end StateRuns
