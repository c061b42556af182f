import PsyDogeBridge.FeeAccounting
import PsyDogeBridge.RecordedBuffer

/-! Does what the operator may withdraw stay within the fees that were collected? The totals are
added without a check, and every new header brings a total of its own. -/
namespace WithdrawableFees

open CheckedSteps SolanaRuntime BridgeData ProgramState TransitionFacts BridgeCalls BridgeProcessor
  AcceptedInstructions BridgeSystem LocalCluster StateHistory StateRuns BacklogSteps RecordedBuffer
  FeeAccounting

variable {env : BridgeEnv} {st st' : BridgeState} {s : PsyBridgeProgramState}
  {ix : BridgeInstruction}
  {es : List Event}

def getOperatorWithdrawableFees (s : PsyBridgeProgramState) : UInt64 :=
  s.getTotalFinalizedFees - s.totalFeesWithdrawnSats

def feeSum (s : PsyBridgeProgramState) : ℕ :=
  s.totalManualDepositFeesSats.toNat + s.totalWithdrawalFeesSats.toNat + headerFees s.bridgeHeader

structure Covered (s : PsyBridgeProgramState) : Prop where
  withdrawn : s.totalFeesWithdrawnSats.toNat ≤ feeSum s
  fits : feeSum s < 2 ^ 64

theorem Covered.total (h : Covered s) : s.getTotalFinalizedFees.toNat = feeSum s := by
  have hfits := h.fits
  unfold feeSum headerFees at hfits ⊢
  rw [PsyBridgeProgramState.getTotalFinalizedFees, UInt64.toNat_add, UInt64.toNat_add]
  omega

theorem Covered.withdrawable (h : Covered s) :
    (getOperatorWithdrawableFees s).toNat = feeSum s - s.totalFeesWithdrawnSats.toNat := by
  have hle : s.totalFeesWithdrawnSats ≤ s.getTotalFinalizedFees := by
    rw [UInt64.le_iff_toNat_le, h.total]
    exact h.withdrawn
  rw [getOperatorWithdrawableFees, UInt64.toNat_sub_of_le _ _ hle, h.total]

def chargedDepositFee (config : PsyBridgeConfig)
    (params : ProcessManualDepositInstructionData) : ℕ :=
  match calcuateDepositFee params.depositAmountSats config.depositFlatFeeSats
    config.depositFeeRateNumerator config.depositFeeRateDenominator with
  | some r => r.feesGenerated.toNat
  | none => 0

/-- With the fees of the new header what was withdrawn is still covered, and the sum fits. -/
def HeaderFits (s : PsyBridgeProgramState) (header : PsyBridgeHeader) : Prop :=
  let fees := s.totalManualDepositFeesSats.toNat + s.totalWithdrawalFeesSats.toNat +
    headerFees header
  s.totalFeesWithdrawnSats.toNat ≤ fees ∧ fees < 2 ^ 64

/-- The fees that an instruction brings leave what was withdrawn covered, and the sum fits. -/
def FeesFit (s : PsyBridgeProgramState) : BridgeInstruction → Prop
  | .blockUpdate fixed _ _ => HeaderFits s fixed.header
  | .processReorgBlocks fixed _ _ _ => HeaderFits s fixed.header
  | .requestWithdrawal request => feeSum s + chargedFee s.configParams request < 2 ^ 64
  | .processManualDeposit params => feeSum s + chargedDepositFee s.configParams params < 2 ^ 64
  | _ => True

def stateBefore (env : BridgeEnv) (call : BridgeCall) : PsyBridgeProgramState :=
  (BridgeState.pod.decode (call.before (BridgeEnv.pda env)).data).coreState

theorem Update.covered (h : Update env st ix st') (hinit : ∀ params, ix ≠ .initializeBridge params)
    (hfit : FeesFit st.coreState ix) (hc : Covered st.coreState) : Covered st'.coreState := by
  have hwithdrawn := hc.withdrawn
  cases h with
  | initializeBridge params => exact absurd rfl (hinit params)
  | blockUpdate => exact ⟨hfit.1, hfit.2⟩
  | processReorgBlocks => exact ⟨hfit.1, hfit.2⟩
  | @requestWithdrawal request r fee =>
    have hfee : feeSum st.coreState + r.feesGenerated.toNat < 2 ^ 64 := by
      rw [FeesFit, chargedFee, fee] at hfit
      exact hfit
    have hsum : (st.coreState.totalWithdrawalFeesSats + r.feesGenerated).toNat =
        st.coreState.totalWithdrawalFeesSats.toNat + r.feesGenerated.toNat := by
      unfold feeSum at hfee
      rw [UInt64.toNat_add]
      omega
    constructor
    all_goals
      unfold feeSum at *
      simp only [withCore]
      omega
  | operatorWithdrawFees =>
    refine ⟨?_, hc.fits⟩
    change st.coreState.getTotalFinalizedFees.toNat ≤ feeSum st.coreState
    rw [hc.total]
  | @processManualDeposit params _ r fee =>
    have hfee : feeSum st.coreState + r.feesGenerated.toNat < 2 ^ 64 := by
      rw [FeesFit, chargedDepositFee, fee] at hfit
      exact hfit
    have hsum : (st.coreState.totalManualDepositFeesSats + r.feesGenerated).toNat =
        st.coreState.totalManualDepositFeesSats.toNat + r.feesGenerated.toNat := by
      unfold feeSum at hfee
      rw [UInt64.toNat_add]
      omega
    constructor
    all_goals
      unfold feeSum at *
      simp only [withCore]
      omega
  | _ => exact ⟨hc.withdrawn, hc.fits⟩

theorem run_covered {cs : List BridgeCall} (r : Run (CallStep env) st cs st')
    (hinit : ∀ call ∈ cs, notInit call) (hfit : ∀ call ∈ cs, FeesFit (stateBefore env call) call.ix)
    (hc : Covered st.coreState) : Covered st'.coreState := by
  refine (r.restrict fun call hcall => And.intro (hinit call hcall) (hfit call hcall)).invariant
    (P := fun st => Covered st.coreState) ?_ hc
  rintro st₁ call st₂ hc ⟨hstep, hni, hfits⟩
  rw [stateBefore, hstep.read] at hfits
  exact Update.covered (StateStep.update hstep.step) hni hfits hc

/-- In a run whose new headers and charged fees all fit, what the operator has withdrawn is always
covered, and the two sums of the program are exact. -/
theorem withdrawn_fees_covered {call : BridgeCall} {params : InitializeBridgeInstructionData}
    {l₀ l₁ l₂ : Ledger} (hg : Guarded env.platform) (init : Step env l₀ (.bridge call) l₁)
    (isInit : call.ix = .initializeBridge params) (first : (l₀ (BridgeEnv.pda env)).data = [])
    (r : Run (Step env) l₁ es l₂) (once : ∀ e ∈ es, ¬ isInitialize e)
    (fit : ∀ call ∈ calls env es, FeesFit (stateBefore env call) call.ix) :
    ∃ st, Holds env l₂ st ∧ Covered st.coreState ∧
      st.coreState.getTotalFinalizedFees.toNat = feeSum st.coreState ∧
      (getOperatorWithdrawableFees st.coreState).toNat =
        feeSum st.coreState - st.coreState.totalFeesWithdrawnSats.toNat := by
  obtain ⟨st, hs, hrun⟩ := state_run hg r (init.initialized hg isInit first)
  have hinitial : Covered (PsyBridgeProgramState.initialized params) := by
    refine ⟨Nat.zero_le _, ?_⟩
    have hlt := params.bridgeHeader.totalFinalizedFeesCollectedChainHistory.toNat_lt
    change 0 + 0 + params.bridgeHeader.totalFinalizedFeesCollectedChainHistory.toNat < _
    omega
  have hc := run_covered hrun (calls_notInit once) fit hinitial
  exact ⟨st, hs, hc, hc.total, hc.withdrawable⟩

def feeBuffers : Ledger :=
  Function.update (Function.update (bufferLedger (openBuffer 0 []) []) operatorTokens
    (tokenAccount mintKey operatorKey 0)) mintKey (mintAccount bridgeState 0)

theorem feeBuffers_tokens : feeBuffers mintKey = mintAccount bridgeState 0 ∧
    feeBuffers operatorTokens = tokenAccount mintKey operatorKey 0 := by
  have hne : operatorTokens ≠ mintKey := by decide
  constructor
  · rw [feeBuffers, Function.update_self]
  · rw [feeBuffers, Function.update_of_ne hne, Function.update_self]

theorem feeBuffers_far {k : Pubkey} (hm : k ≠ mintKey) (ht : k ≠ operatorTokens) :
    feeBuffers k = bufferLedger (openBuffer 0 []) [] k := by
  rw [feeBuffers, Function.update_of_ne hm, Function.update_of_ne ht]

theorem feeBuffers_unused : feeBuffers (BridgeEnv.pda cluster) = ⟨SYSTEM_PROGRAM_ID, []⟩ := by
  rw [← bufferLedger_unused (openBuffer 0 []) [], cluster_pda]
  exact feeBuffers_far (by decide) (by decide)

def withdrawnState : BridgeState :=
  { feeState with coreState := { feeState.coreState with totalFeesWithdrawnSats := 7 } }

theorem first_fees_withdrawn :
    ∃ l', Step cluster (install cluster feeBuffers feeState)
        (.bridge (feeCall (install cluster feeBuffers feeState) l')) l' ∧
      Holds cluster l' withdrawnState ∧
      l' mintBufferKey = ⟨PENDING_MINT_BUFFER_BUILDER_PROGRAM_ID, openBuffer 0 []⟩ ∧
      l' txoBufferKey = ⟨TXO_BUFFER_BUILDER_PROGRAM_ID, []⟩ := by
  have hs := install_holds cluster feeBuffers feeState
  have hrecorded : feeRecorded cluster (install cluster feeBuffers feeState) =
      install cluster feeBuffers withdrawnState :=
    (Holds.setData_eq_install hs).trans install_install
  have hfar {k : Pubkey} (hk : k ≠ bridgeState) :
      feeRecorded cluster (install cluster feeBuffers feeState) k = feeBuffers k := by
    rw [← cluster_pda] at hk
    rw [hrecorded, install_of_ne hk]
  obtain ⟨l', hminted⟩ : ∃ l', Called cluster (feeInvocation cluster) .none (feeMint cluster)
      (feeRecorded cluster (install cluster feeBuffers feeState)) l' :=
    mint_called rfl rfl (by decide) (by decide +kernel) (by decide +kernel) rfl
      cluster_pda_key ((hfar (by decide)).trans feeBuffers_tokens.1)
      ((hfar (by decide)).trans feeBuffers_tokens.2)
  have hheld : feeRecorded cluster (install cluster feeBuffers feeState) (BridgeEnv.pda cluster) =
      ⟨DOGE_BRIDGE_PROGRAM_ID, BridgeState.pod.encode withdrawnState⟩ := by
    rw [hrecorded]
    exact install_holds cluster feeBuffers withdrawnState
  have hmints := (hfar (k := mintBufferKey) (by decide)).trans
    ((feeBuffers_far (by decide) (by decide)).trans (bufferLedger_mints _ _))
  have htxos := (hfar (k := txoBufferKey) (by decide)).trans
    ((feeBuffers_far (by decide) (by decide)).trans (bufferLedger_txos _ _))
  refine ⟨l', fee_step hs hminted, ?_, ?_, ?_⟩
  · exact (minted_elsewhere rfl hminted (by rw [hheld]; exact token_ne_bridge.symm)).trans hheld
  · exact (minted_elsewhere rfl hminted (by rw [hmints]; decide)).trans hmints
  · exact (minted_elsewhere rfl hminted (by rw [htxos]; decide)).trans htxos

theorem emptyReorg_accepted_later {l : Ledger} :
    runTransition cluster l withdrawnState emptyReorg.proof emptyReorg.header [emptyInfo]
      bridgeState mintBufferKey txoBufferKey true =
    .ok { withdrawnState.coreState with bridgeHeader := emptyReorg.header } := by
  have htip : ¬ (12 : UInt32) ≤ 10 := by decide
  have hempty : ∀ e ∈ [emptyInfo] ++ [headerInfo emptyReorg.header], e.isEmpty = true := by
    decide
  refine runTransition_reorg.mpr ⟨⟨rfl, Vector.length_toList, Vector.length_toList, htip,
    Nat.not_lt_zero _⟩, htip, rfl, rfl, _, .kept hempty rfl, rfl⟩

/-- The operator withdraws the seven that the first header counts; the next header that the
verifier accepts counts none. -/
theorem withdrawn_fees_uncovered :
    ∃ es₁ es₃ l₁ l₂ l₃,
      Step cluster feeBuffers (.bridge (initializeCall feeParams es₁ feeBuffers l₁)) l₁ ∧
      Step cluster l₁ (.bridge (feeCall l₁ l₂)) l₂ ∧
      Step cluster l₂ (.bridge (reorgCall emptyReorg [emptyInfo] es₃ l₂ l₃)) l₃ ∧
      ∃ st, Holds cluster l₃ st ∧ feeSum st.coreState = 0 ∧
        st.coreState.totalFeesWithdrawnSats = 7 ∧
        (getOperatorWithdrawableFees st.coreState).toNat = 2 ^ 64 - 7 := by
  obtain ⟨es₁, _, h₁, rfl⟩ := initialize_unused cluster feeBuffers operatorKey feeParams
    feeBuffers_unused
  obtain ⟨l₂, h₂, hs₂, hmints, htxos⟩ := first_fees_withdrawn
  have hinstalled : install cluster l₂ withdrawnState = l₂ := by
    funext k
    by_cases hk : k = BridgeEnv.pda cluster
    · rw [hk, show l₂ (BridgeEnv.pda cluster) = _ from hs₂]
      exact install_holds cluster l₂ withdrawnState
    · exact install_of_ne hk
  obtain ⟨es₃, l₃, h₃, hs₃, -⟩ := cluster_update hmints htxos emptyReorg_accepted_later (by decide)
  rw [hinstalled] at h₃
  refine ⟨es₁, es₃, _, l₂, l₃, h₁, h₂, step_of_accepted rfl (.processReorgBlocks h₃), _, hs₃, rfl,
    rfl, ?_⟩
  decide

/-- After the withdrawal itself the fees are covered. -/
theorem first_withdrawal_covered :
    ∃ es₁ l₁ l₂,
      Step cluster feeBuffers (.bridge (initializeCall feeParams es₁ feeBuffers l₁)) l₁ ∧
      Step cluster l₁ (.bridge (feeCall l₁ l₂)) l₂ ∧
      ∃ st, Holds cluster l₂ st ∧ Covered st.coreState := by
  obtain ⟨es₁, _, h₁, rfl⟩ := initialize_unused cluster feeBuffers operatorKey feeParams
    feeBuffers_unused
  obtain ⟨l₂, h₂, -⟩ := first_fees_withdrawn
  obtain ⟨st, hs, hc, -⟩ := withdrawn_fees_covered cluster_guarded h₁ rfl
    (congrArg Account.data feeBuffers_unused) (.single h₂)
    (by rw [List.forall_mem_singleton]; exact id)
    (by
      intro call hcall
      cases List.mem_singleton.mp (mem_of_mem_calls hcall).1
      trivial)
  exact ⟨es₁, _, l₂, h₁, h₂, st, hs, hc⟩

end WithdrawableFees
