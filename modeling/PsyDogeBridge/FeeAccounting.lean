import PsyDogeBridge.StateHistory

/-! What manual deposits and fee withdrawals mint over whole runs, with totals that wrap. -/
namespace FeeAccounting

open PodLayout CheckedSteps SolanaRuntime BridgeData ProgramState BridgeCalls AcceptedInstructions
  BridgeSystem LocalCluster StateHistory StateRuns

variable {env : BridgeEnv} {st st' : BridgeState} {es : List Event}

def mintAmount (e : Effect) : ℕ :=
  if e.cpi.programId = TOKEN_PROGRAM_ID ∧ e.cpi.data.head? = some 7 then leValue e.cpi.data.tail
  else 0

def manualMint : BridgeCall → ℕ
  | { ix := .processManualDeposit _, effects := effects, .. } => (effects.map mintAmount).sum
  | _ => 0

def operatorMint : BridgeCall → ℕ
  | { ix := .operatorWithdrawFees, effects := effects, .. } => (effects.map mintAmount).sum
  | _ => 0

def depositAmount : BridgeCall → ℕ
  | { ix := .processManualDeposit params, .. } => params.depositAmountSats.toNat
  | _ => 0

def chargedFee (config : PsyBridgeConfig) (request : PsyWithdrawalRequest) : ℕ :=
  match calcuateWithdrawalFee request.amountSats config.withdrawalFlatFeeSats
    config.withdrawalFeeRateNumerator config.withdrawalFeeRateDenominator with
  | some r => r.feesGenerated.toNat
  | none => 0

def requestFee (env : BridgeEnv) : BridgeCall → ℕ
  | { ix := .requestWithdrawal request, before := l, .. } =>
    chargedFee (BridgeState.pod.decode (l (BridgeEnv.pda env)).data).coreState.configParams request
  | _ => 0

def headerOf : BridgeCall → Option PsyBridgeHeader
  | { ix := .blockUpdate fixed _ _, .. } => some fixed.header
  | { ix := .processReorgBlocks fixed _ _ _, .. } => some fixed.header
  | _ => none

def headersHeld (params : InitializeBridgeInstructionData) (cs : List BridgeCall) :
    List PsyBridgeHeader := params.bridgeHeader :: cs.filterMap headerOf

def headerFees (h : PsyBridgeHeader) : ℕ := h.totalFinalizedFeesCollectedChainHistory.toNat

def largestFees (hs : List PsyBridgeHeader) : ℕ := hs.foldl (fun m h => max m (headerFees h)) 0

theorem mintAmount_mintTo {inv : Invocation} {mint recipient authority : AccountInfo}
    {amount : UInt64} :
    mintAmount (.call (mintToCall env inv mint recipient authority amount)) = amount.toNat := by
  change (if TOKEN_PROGRAM_ID = TOKEN_PROGRAM_ID ∧ some 7 = some (7 : UInt8) then
    leValue (Pod.u64.encode amount) else 0) = _
  rw [if_pos ⟨rfl, rfl⟩, Pod.leValue_u64]

/-- The entry of one accepted instruction in the books. The totals may wrap, which only makes
them smaller. -/
structure Entry (env : BridgeEnv) (st : BridgeState) (call : BridgeCall) (st' : BridgeState) :
    Prop where
  net : manualMint call ≤ depositAmount call
  manual : manualMint call + st'.coreState.totalManualDepositFeesSats.toNat ≤
    st.coreState.totalManualDepositFeesSats.toNat + depositAmount call
  requests : st'.coreState.totalWithdrawalFeesSats.toNat ≤
    st.coreState.totalWithdrawalFeesSats.toNat + requestFee env call
  header : st'.coreState.bridgeHeader = (headerOf call).getD st.coreState.bridgeHeader
  operator : st'.coreState.totalFeesWithdrawnSats.toNat =
    st.coreState.totalFeesWithdrawnSats.toNat + operatorMint call
  due : operatorMint call = 0 ∨ st'.coreState.totalFeesWithdrawnSats.toNat ≤
    st.coreState.totalManualDepositFeesSats.toNat + st.coreState.totalWithdrawalFeesSats.toNat +
      headerFees st.coreState.bridgeHeader

theorem toNat_add_le (a b : UInt64) : (a + b).toNat ≤ a.toNat + b.toNat := by
  rw [UInt64.toNat_add]
  exact Nat.mod_le _ _

theorem totalFees_le (s : PsyBridgeProgramState) : s.getTotalFinalizedFees.toNat ≤
    s.totalManualDepositFeesSats.toNat + s.totalWithdrawalFeesSats.toNat +
      headerFees s.bridgeHeader := by
  have h₁ := toNat_add_le s.totalManualDepositFeesSats s.totalWithdrawalFeesSats
  have h₂ := toNat_add_le (s.totalManualDepositFeesSats + s.totalWithdrawalFeesSats)
    s.bridgeHeader.totalFinalizedFeesCollectedChainHistory
  unfold PsyBridgeProgramState.getTotalFinalizedFees headerFees
  omega

theorem CallStep.operator_entry {call : BridgeCall} (h : CallStep env st call st')
    (hix : call.ix = .operatorWithdrawFees) :
    operatorMint call =
      (st.coreState.getTotalFinalizedFees - st.coreState.totalFeesWithdrawnSats).toNat := by
  have ha := h.accepted
  obtain ⟨inv, ix, effects, l, l'⟩ := call
  cases hix
  dsimp only at ha
  cases ha with
  | operatorWithdrawFees accounts _ read _ _ run _ _ =>
    obtain rfl := CallStep.read_first h accounts read
    obtain ⟨-, rfl, -⟩ := PsyBridgeProgramState.runBridgeOperatorWithdrawFeesPrecheck_ok.mp run
    change mintAmount (.call _) + 0 = _
    rw [mintAmount_mintTo, Nat.add_zero]

theorem Entry.quiet {call : BridgeCall} (hm : manualMint call = 0) (ho : operatorMint call = 0)
    (hmanual : st'.coreState.totalManualDepositFeesSats = st.coreState.totalManualDepositFeesSats)
    (hrequests : st'.coreState.totalWithdrawalFeesSats = st.coreState.totalWithdrawalFeesSats)
    (hheader : st'.coreState.bridgeHeader = (headerOf call).getD st.coreState.bridgeHeader)
    (hoperator : st'.coreState.totalFeesWithdrawnSats = st.coreState.totalFeesWithdrawnSats) :
    Entry env st call st' := by
  refine ⟨?_, ?_, ?_, hheader, ?_, .inl ho⟩
  · rw [hm]
    exact Nat.zero_le _
  · rw [hm, hmanual]
    omega
  · rw [hrequests]
    omega
  · rw [ho, hoperator, Nat.add_zero]

theorem CallStep.entry {call : BridgeCall} (h : CallStep env st call st') (hinit : notInit call) :
    Entry env st call st' := by
  have hupdate := StateStep.update h.step
  obtain ⟨inv, ix, effects, l, l'⟩ := call
  dsimp only at hupdate
  cases hupdate with
  | initializeBridge params => exact absurd rfl (hinit params)
  | @requestWithdrawal request r fee =>
    have hread := CallStep.read h
    have hfee : requestFee env ⟨inv, .requestWithdrawal request, effects, l, l'⟩ =
        r.feesGenerated.toNat := by
      dsimp only at hread
      change chargedFee (BridgeState.pod.decode (l (BridgeEnv.pda env)).data).coreState.configParams
        request = _
      rw [hread, chargedFee, fee]
    refine ⟨le_rfl, Nat.le_of_eq (Nat.zero_add _), ?_, rfl, rfl, .inl rfl⟩
    rw [hfee]
    exact toNat_add_le _ _
  | operatorWithdrawFees due =>
    have hmint := CallStep.operator_entry h rfl
    have hlt := UInt64.lt_iff_toNat_lt.mp due
    rw [UInt64.toNat_sub_of_le _ _ (UInt64.le_of_lt due)] at hmint
    refine ⟨le_rfl, Nat.le_of_eq (Nat.zero_add _), le_rfl, rfl, ?_, .inr (totalFees_le _)⟩
    rw [hmint]
    exact (Nat.add_sub_cancel' hlt.le).symm
  | @processManualDeposit params _ r fee =>
    have hsplit : manualMint ⟨inv, .processManualDeposit params, effects, l, l'⟩ +
        r.feesGenerated.toNat = params.depositAmountSats.toNat := by
      have ha := h.accepted
      dsimp only at ha
      cases ha with
      | processManualDeposit accounts _ _ read run _ _ =>
        obtain rfl := CallStep.read_first h accounts read
        obtain ⟨-, -, r', hfee, -, -, -, rfl⟩ :=
          PsyBridgeProgramState.processManualClaimedDeposit_ok.mp run
        rw [fee] at hfee
        cases hfee
        change mintAmount (.call _) + 0 + _ = _
        rw [mintAmount_mintTo, Nat.add_zero]
        exact calcuateFee_add fee
    have hadd := toNat_add_le st.coreState.totalManualDepositFeesSats r.feesGenerated
    refine ⟨Nat.le.intro hsplit, ?_, le_rfl, rfl, rfl, .inl rfl⟩
    change _ + (st.coreState.totalManualDepositFeesSats + r.feesGenerated).toNat ≤
      st.coreState.totalManualDepositFeesSats.toNat + params.depositAmountSats.toNat
    omega
  | _ => exact Entry.quiet rfl rfl rfl rfl rfl rfl

section Books

def total (f : BridgeCall → ℕ) (cs : List BridgeCall) : ℕ := (cs.map f).sum

theorem total_append (f : BridgeCall → ℕ) (cs : List BridgeCall) (call : BridgeCall) :
    total f (cs ++ [call]) = total f cs + f call := by
  rw [total, List.map_append, List.sum_append, List.map_singleton, List.sum_singleton, total]

theorem largestFees_append (params : InitializeBridgeInstructionData) (cs : List BridgeCall)
    (call : BridgeCall) :
    largestFees (headersHeld params cs) ≤ largestFees (headersHeld params (cs ++ [call])) ∧
      ∀ h, headerOf call = some h →
        headerFees h ≤ largestFees (headersHeld params (cs ++ [call])) := by
  have hheld : headersHeld params (cs ++ [call]) =
      headersHeld params cs ++ (headerOf call).toList := by
    rw [headersHeld, List.filterMap_append, headersHeld, List.cons_append]
    cases hh : headerOf call with
    | none => rw [List.filterMap_cons_none hh]; rfl
    | some h => rw [List.filterMap_cons_some hh]; rfl
  rw [hheld, largestFees, largestFees, List.foldl_append]
  cases headerOf call with
  | none => exact ⟨le_rfl, fun _ hh => nomatch hh⟩
  | some h =>
    refine ⟨le_max_left _ _, fun h' hh => ?_⟩
    cases hh
    exact le_max_right _ _

variable {params : InitializeBridgeInstructionData} {cs : List BridgeCall}

structure Books (env : BridgeEnv) (params : InitializeBridgeInstructionData)
    (cs : List BridgeCall) (st : BridgeState) : Prop where
  manual : total manualMint cs + st.coreState.totalManualDepositFeesSats.toNat ≤
    total depositAmount cs
  requests : st.coreState.totalWithdrawalFeesSats.toNat ≤ total (requestFee env) cs
  header : headerFees st.coreState.bridgeHeader ≤ largestFees (headersHeld params cs)
  operator : total operatorMint cs = st.coreState.totalFeesWithdrawnSats.toNat
  bound : total manualMint cs + total operatorMint cs ≤
    total depositAmount cs + total (requestFee env) cs + largestFees (headersHeld params cs)

theorem Books.step {call : BridgeCall} (h : Books env params cs st) (he : Entry env st call st') :
    Books env params (cs ++ [call]) st' := by
  obtain ⟨hgrow, hnew⟩ := largestFees_append params cs call
  obtain ⟨hmanual, hrequests, hheader, hoperator, hbound⟩ := h
  have hnet := he.net
  have hm := he.manual
  have hr := he.requests
  have ho := he.operator
  refine ⟨?_, ?_, ?_, ?_, ?_⟩
  · rw [total_append, total_append]
    omega
  · rw [total_append]
    omega
  · rw [he.header]
    cases hc : headerOf call with
    | none => exact hheader.trans hgrow
    | some header => exact hnew header hc
  · rw [total_append]
    omega
  · rw [total_append, total_append, total_append, total_append]
    -- Either nothing is withdrawn, or the new total is covered by the fees that are held.
    rcases he.due with hzero | hdue
    · omega
    · omega

theorem run_books (r : Run (CallStep env)
    ⟨PsyBridgeProgramState.initialized params, params.dogeMint⟩ cs st)
    (hinit : ∀ call ∈ cs, notInit call) : Books env params cs st := by
  refine (r.restrict hinit).history (P := fun _ cs st => Books env params cs st) ?_ ?_
  · exact ⟨le_rfl, le_rfl, le_max_right _ _, rfl, Nat.zero_le _⟩
  · intro cs st₁ call st₂ _ ih hstep
    exact ih.step (CallStep.entry hstep.1 hstep.2)

/-- What manual deposits and fee withdrawals mint is covered by the deposits, the fees of the
withdrawal requests and the largest fees that any header counted. -/
theorem minted_covered {call : BridgeCall} {l₀ l₁ l₂ : Ledger} (hg : Guarded env.platform)
    (init : Step env l₀ (.bridge call) l₁) (isInit : call.ix = .initializeBridge params)
    (first : (l₀ (BridgeEnv.pda env)).data = []) (r : Run (Step env) l₁ es l₂)
    (once : ∀ e ∈ es, ¬ isInitialize e) :
    total manualMint (calls env es) + total operatorMint (calls env es) ≤
      total depositAmount (calls env es) + total (requestFee env) (calls env es) +
        largestFees (headersHeld params (calls env es)) := by
  obtain ⟨st, -, hrun⟩ := state_run hg r (init.initialized hg isInit first)
  exact (run_books hrun (calls_notInit once)).bound

def feeParams : InitializeBridgeInstructionData :=
  { genesisParams operatorKey 10 with
    bridgeHeader := { headerAt 10 with totalFinalizedFeesCollectedChainHistory := 7 } }

def feeState : BridgeState := ⟨PsyBridgeProgramState.initialized feeParams, mintKey⟩

def operatorTokens : Pubkey := Vector.replicate 32 8

def feeLedger : Ledger :=
  Function.update (Function.update emptyLedger operatorTokens (tokenAccount mintKey operatorKey 0))
    mintKey (mintAccount bridgeState 0)

def feeInvocation (env : BridgeEnv) : Invocation where
  programId := DOGE_BRIDGE_PROGRAM_ID
  accounts := [⟨BridgeEnv.pda env, false, true⟩, ⟨operatorTokens, false, true⟩,
    ⟨mintKey, false, true⟩, ⟨operatorKey, true, false⟩, ⟨TOKEN_PROGRAM_ID, false, false⟩]
  unixTimestamp := 0
  fundsSuffice := true

def feeMint (env : BridgeEnv) : Cpi :=
  mintToCall env (feeInvocation env) ⟨mintKey, false, true⟩ ⟨operatorTokens, false, true⟩
    ⟨BridgeEnv.pda env, false, true⟩ 7

abbrev feeCall (l l' : Ledger) : BridgeCall :=
  ⟨feeInvocation cluster, .operatorWithdrawFees, [.call (feeMint cluster)], l, l'⟩

theorem feeInvocation_on (env : BridgeEnv) : onAccount (feeInvocation env) (BridgeEnv.pda env) :=
  ⟨_, _, rfl, rfl⟩

def feeRecorded (env : BridgeEnv) (l : Ledger) : Ledger :=
  l.setData (BridgeEnv.pda env) (BridgeState.pod.encode
    { feeState with coreState := { feeState.coreState with totalFeesWithdrawnSats := 7 } })

theorem fee_step {l l' : Ledger} (hs : Holds env l feeState)
    (mint : Called env (feeInvocation env) .none (feeMint env) (feeRecorded env l) l') :
    Step env l (.bridge ⟨feeInvocation env, .operatorWithdrawFees, [.call (feeMint env)], l, l'⟩)
      l' :=
  step_of_accepted rfl (.operatorWithdrawFees rfl rfl (congrArg Account.data hs) rfl rfl
    (PsyBridgeProgramState.runBridgeOperatorWithdrawFeesPrecheck_ok.mpr ⟨by decide, rfl, rfl⟩)
    (writeState_ok.mpr ⟨.inr ⟨congrArg Account.owner hs, ⟨BridgeEnv.pda env, false, true⟩,
      List.mem_cons_self, rfl, rfl⟩, rfl⟩) mint)

theorem feeLedger_far {k : Pubkey} (hk : k ≠ BridgeEnv.pda cluster) :
    feeRecorded cluster (install cluster feeLedger feeState) k = feeLedger k := by
  rw [feeRecorded, setData_of_ne hk, install_of_ne hk]

theorem fees_minted :
    ∃ l', Called cluster (feeInvocation cluster) .none (feeMint cluster)
      (feeRecorded cluster (install cluster feeLedger feeState)) l' := by
  have hmint : mintKey ≠ BridgeEnv.pda cluster := ne_pda (by decide)
  have htokens : operatorTokens ≠ BridgeEnv.pda cluster := ne_pda (by decide)
  exact mint_called rfl rfl (by decide) (by decide +kernel) (by decide +kernel) rfl
    cluster_pda_key ((feeLedger_far hmint).trans (by decide))
    ((feeLedger_far htokens).trans (by decide))

/-- The operator withdraws the fees of the first header. -/
theorem first_fees_covered :
    ∃ es₁ l₁ l₂, Step cluster feeLedger (.bridge (initializeCall feeParams es₁ feeLedger l₁)) l₁ ∧
      Step cluster l₁ (.bridge (feeCall l₁ l₂)) l₂ ∧
      7 ≤ largestFees [feeParams.bridgeHeader] := by
  have hfresh : feeLedger (BridgeEnv.pda cluster) = ⟨SYSTEM_PROGRAM_ID, []⟩ := by
    rw [cluster_pda]
    decide
  obtain ⟨es₁, _, h₁, rfl⟩ := initialize_unused cluster feeLedger operatorKey feeParams hfresh
  obtain ⟨l₂, hminted⟩ := fees_minted
  have h₂ := fee_step (install_holds cluster feeLedger feeState) hminted
  have hcovered := minted_covered cluster_guarded h₁ rfl (congrArg Account.data hfresh)
    (.single h₂) (by rw [List.forall_mem_singleton]; exact id)
  refine ⟨es₁, _, l₂, h₁, h₂, ?_⟩
  set call := feeCall (install cluster feeLedger feeState) l₂
  have hmanual : total manualMint [call] = 0 := rfl
  have hoperator : total operatorMint [call] = 7 := by
    change mintAmount (.call (feeMint cluster)) + 0 + 0 = 7
    rw [feeMint, mintAmount_mintTo]
    rfl
  have hdeposits : total depositAmount [call] = 0 := rfl
  have hfees : total (requestFee cluster) [call] = 0 := rfl
  have hon : call.on (BridgeEnv.pda cluster) := feeInvocation_on cluster
  rw [calls_single hon, hmanual, hoperator, hdeposits, hfees, Nat.zero_add,
    Nat.zero_add] at hcovered
  exact hcovered

end Books

end FeeAccounting
