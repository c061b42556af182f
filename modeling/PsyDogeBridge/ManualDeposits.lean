import PsyDogeBridge.ManualClaimClient
import PsyDogeBridge.OneBlockReorg
import PsyDogeBridge.TxoIndex

/-! Which manual deposits the bridge accepts: against which recent blocks, and under which indices
of an output. -/
namespace ManualDeposits

open CheckedSteps SolanaRuntime BridgeData ProgramState BlockTransition TransitionFacts BridgeCalls
  BridgeProcessor AcceptedInstructions BridgeSystem LocalCluster StateHistory StateRuns TxoIndex
  ManualClaimClient OneBlockReorg

variable {c : Crypto} {s s' : PsyBridgeProgramState} {txHash blockRoot autoRoot : QHash256}
  {index index' amount net : UInt64} {ata : Vector UInt8 32}

/-- The blocks that a claim can be built against, in the order in which they are searched. -/
def candidates (s : PsyBridgeProgramState) : List PsyBridgeStateCommitment :=
  s.bridgeHeader.finalizedState :: s.recentFinalizedBlocks.toList

structure Backs (b : PsyBridgeStateCommitment) (blockRoot autoRoot : QHash256) (index : UInt64) :
    Prop where
  auto : b.autoClaimedDepositsTreeRoot = autoRoot
  block : b.blockMerkleTreeRoot = blockRoot
  known : b.blockHeight ≠ INVALID_BLOCK_HEIGHT
  reached : txoBlockNumber index ≤ b.blockHeight

/-- The first block that has the auto-claim root hides no later one that backs the claim. -/
def Unshadowed (s : PsyBridgeProgramState) (blockRoot autoRoot : QHash256)
    (index : UInt64) : Prop :=
  ∀ before b after, candidates s = before ++ b :: after → b.autoClaimedDepositsTreeRoot = autoRoot →
    (∀ e ∈ before, e.autoClaimedDepositsTreeRoot ≠ autoRoot) →
    (∃ e ∈ after, Backs e blockRoot autoRoot index) → Backs b blockRoot autoRoot index

def firstWith (s : PsyBridgeProgramState) (autoRoot : QHash256) : Option PsyBridgeStateCommitment :=
  (candidates s).find? fun b => b.autoClaimedDepositsTreeRoot == autoRoot

theorem firstWith_eq_some {b : PsyBridgeStateCommitment} :
    firstWith s autoRoot = some b ↔ b.autoClaimedDepositsTreeRoot = autoRoot ∧
      ∃ before after, candidates s = before ++ b :: after ∧
        ∀ e ∈ before, e.autoClaimedDepositsTreeRoot ≠ autoRoot := by
  rw [firstWith, List.find?_eq_some_iff_append]
  simp only [beq_iff_eq, Bool.not_eq_true', beq_eq_false_iff_ne]

theorem findRecent_eq : s.findRecentAutoClaimTxoTreeRootAndBlockMerkleRoot autoRoot =
    (firstWith s autoRoot).elim (INVALID_BLOCK_HEIGHT, zeroBytes)
      fun b => (b.blockHeight, b.blockMerkleTreeRoot) := by
  unfold PsyBridgeProgramState.findRecentAutoClaimTxoTreeRootAndBlockMerkleRoot firstWith candidates
  cases List.find? (fun b => b.autoClaimedDepositsTreeRoot == autoRoot)
    (s.bridgeHeader.finalizedState :: s.recentFinalizedBlocks.toList) with
  | none => rfl
  | some b => rfl

/-- Where the fee can be taken, the first block with the auto-claim root decides. -/
theorem accepted_iff_first {r : FeeResult}
    (fee : calcuateDepositFee amount s.configParams.depositFlatFeeSats
      s.configParams.depositFeeRateNumerator s.configParams.depositFeeRateDenominator = some r)
    (charged : r.feesGenerated ≠ 0) (left : r.amountAfterFees ≠ 0) :
    (∃ s' net, s.processManualClaimedDeposit c txHash blockRoot autoRoot index ata amount =
        .ok (s', net)) ↔
      ∃ b, firstWith s autoRoot = some b ∧ Backs b blockRoot autoRoot index := by
  simp only [PsyBridgeProgramState.processManualClaimedDeposit_ok, findRecent_eq]
  cases hfirst : firstWith s autoRoot with
  | none =>
    constructor
    · rintro ⟨s', net, hheight, -⟩
      exact absurd (.inl rfl) hheight
    · rintro ⟨b, hb, -⟩
      cases hb
  | some b =>
    have hauto := (firstWith_eq_some.mp hfirst).1
    constructor
    · rintro ⟨s', net, hheight, hblock, -⟩
      rw [not_or] at hheight
      exact ⟨b, rfl, hauto, hblock, hheight.1, UInt32.not_lt.mp hheight.2⟩
    · rintro ⟨b', hb', hbacks⟩
      cases hb'
      refine ⟨_, _, ?_, hbacks.block, r, fee, charged, left, rfl, rfl⟩
      rw [not_or]
      exact ⟨hbacks.known, UInt32.not_lt.mpr hbacks.reached⟩

/-- A claim is accepted exactly when a recent block backs it, unless the first block with its
auto-claim root does not back it while a later one does. -/
theorem deposit_backed_iff {r : FeeResult}
    (fee : calcuateDepositFee amount s.configParams.depositFlatFeeSats
      s.configParams.depositFeeRateNumerator s.configParams.depositFeeRateDenominator = some r)
    (charged : r.feesGenerated ≠ 0) (left : r.amountAfterFees ≠ 0) :
    ((∃ s' net, s.processManualClaimedDeposit c txHash blockRoot autoRoot index ata amount =
          .ok (s', net)) ↔
        ∃ b ∈ candidates s, Backs b blockRoot autoRoot index) ↔
      Unshadowed s blockRoot autoRoot index := by
  rw [accepted_iff_first fee charged left]
  constructor
  · intro hiff before b after hsplit hauto hbefore hlater
    obtain ⟨e, he, hbacks⟩ := hlater
    have hmem : e ∈ candidates s := by
      rw [hsplit]
      exact List.mem_append_right _ (List.mem_cons_of_mem _ he)
    obtain ⟨b', hfirst, hbacks'⟩ := hiff.mpr ⟨e, hmem, hbacks⟩
    rw [firstWith_eq_some.mpr ⟨hauto, before, after, hsplit, hbefore⟩] at hfirst
    cases hfirst
    exact hbacks'
  · intro hclear
    constructor
    · rintro ⟨b, hfirst, hbacks⟩
      exact ⟨b, List.mem_of_find?_eq_some hfirst, hbacks⟩
    · rintro ⟨e, he, hbacks⟩
      obtain ⟨b, hfirst⟩ : ∃ b, firstWith s autoRoot = some b := by
        apply Option.isSome_iff_exists.mp
        rw [firstWith, List.find?_isSome]
        exact ⟨e, he, beq_iff_eq.mpr hbacks.auto⟩
      obtain ⟨hauto, before, after, hsplit, hbefore⟩ := firstWith_eq_some.mp hfirst
      refine ⟨b, hfirst, ?_⟩
      rw [hsplit, List.mem_append, List.mem_cons] at he
      rcases he with he | rfl | he
      · exact absurd hbacks.auto (hbefore e he)
      · exact hbacks
      · exact hclear before b after hsplit hauto hbefore ⟨e, he, hbacks⟩

theorem net_1000 : ∃ core, (genesisState operatorKey 10).coreState.processManualClaimedDeposit
    crypto zeroBytes zeroBytes zeroBytes 0 ataKey 1000 = .ok (core, 990) :=
  ⟨_, PsyBridgeProgramState.processManualClaimedDeposit_ok.mpr ⟨by decide, by decide,
    ⟨10, 990⟩, by decide, by decide, by decide, rfl, rfl⟩⟩

theorem genesis_backs : ∀ b ∈ candidates (genesisState operatorKey 10).coreState,
    Backs b zeroBytes zeroBytes 0 := by
  have hfirst : Backs (headerAt 10).finalizedState zeroBytes zeroBytes 0 :=
    ⟨rfl, rfl, by decide, by decide⟩
  intro b hb
  rcases List.mem_cons.mp hb with rfl | hb
  · exact hfirst
  · have hsame : b = (headerAt 10).finalizedState :=
      Vector.eq_of_mem_replicate (Vector.mem_toList_iff.mp hb)
    rw [hsame]
    exact hfirst

theorem genesis_fee : calcuateDepositFee 1000
    (genesisState operatorKey 10).coreState.configParams.depositFlatFeeSats
    (genesisState operatorKey 10).coreState.configParams.depositFeeRateNumerator
    (genesisState operatorKey 10).coreState.configParams.depositFeeRateDenominator =
      some ⟨10, 990⟩ := by decide

theorem first_claim_backed :
    (∃ s' net, (genesisState operatorKey 10).coreState.processManualClaimedDeposit crypto zeroBytes
        zeroBytes zeroBytes 0 ataKey 1000 = .ok (s', net)) ↔
      ∃ b ∈ candidates (genesisState operatorKey 10).coreState, Backs b zeroBytes zeroBytes 0 := by
  refine (deposit_backed_iff genesis_fee (by decide) (by decide)).mpr ?_
  intro before b after hsplit _ _ _
  apply genesis_backs
  rw [hsplit]
  exact List.mem_append_right _ List.mem_cons_self

def nextHeader : PsyBridgeHeader :=
  { headerAt 11 with
    finalizedState :=
      { (headerAt 11).finalizedState with blockMerkleTreeRoot := Vector.replicate 32 1 } }

/-- After the next block a claim against the first one is refused, with the block in the ring. -/
theorem recent_block_shadowed :
    ∃ s, runStandardSingleBlockTransition crypto (genesisState operatorKey 10).coreState sampleProof
        sampleKey nextHeader bridgeState mintBufferKey [] [] = .ok s ∧
      calcuateDepositFee 1000 s.configParams.depositFlatFeeSats
        s.configParams.depositFeeRateNumerator s.configParams.depositFeeRateDenominator =
        some ⟨10, 990⟩ ∧
      (∃ b ∈ s.recentFinalizedBlocks.toList, Backs b zeroBytes zeroBytes 0) ∧
      s.processManualClaimedDeposit crypto zeroBytes zeroBytes zeroBytes 0 ataKey 1000 =
        .error (coreError .blockMerkleTreeRootNotRecentEnough) := by
  have hmem : (headerAt 10).finalizedState ∈ ((genesisState operatorKey
      10).coreState.recentFinalizedBlocks.set 0 nextHeader.finalizedState).toList := by decide
  have hfew : ¬ newAutoClaims (genesisState operatorKey 10).coreState nextHeader > 65535 := by
    decide
  have hring : (genesisState operatorKey 10).coreState.nextRecentFinalizedBlockIndex.toNat < 8 := by
    decide
  have hheader : HeaderAdvances (genesisState operatorKey 10).coreState sampleProof sampleKey
      nextHeader := ⟨rfl, headerAt_advances.proofSize, headerAt_advances.keySize,
    headerAt_advances.tip, headerAt_advances.index⟩
  refine ⟨_, runStandardSingleBlockTransition_ok.mpr ⟨hheader, rfl, hfew, rfl, _, _,
    .kept rfl rfl rfl, setRecentFinalizedBlock_ok.mpr ⟨hring, rfl⟩, rfl⟩, genesis_fee, ?_, ?_⟩
  · exact ⟨(headerAt 10).finalizedState, hmem, rfl, rfl, by decide, by decide⟩
  · rfl

section Indices

variable {env : BridgeEnv} {es : List Event} {st : BridgeState} {core : PsyBridgeProgramState}

/-- The checks of a deposit see only the block number of its index, and nothing that a deposit
changes: it can be claimed again under every index with the same block number. -/
theorem claimable_again
    (h : s.processManualClaimedDeposit c txHash blockRoot autoRoot index ata amount = .ok (s', net))
    (same : txoBlockNumber index' = txoBlockNumber index) :
    ∃ s'', s'.processManualClaimedDeposit c txHash blockRoot autoRoot index' ata amount =
      .ok (s'', net) := by
  obtain ⟨hheight, hblock, r, hfee, hcharged, hleft, rfl, rfl⟩ :=
    PsyBridgeProgramState.processManualClaimedDeposit_ok.mp h
  rw [← same] at hheight
  exact ⟨_, PsyBridgeProgramState.processManualClaimedDeposit_ok.mpr
    ⟨hheight, hblock, r, hfee, hcharged, hleft, rfl, rfl⟩⟩

def Deposited (env : BridgeEnv) (es : List Event)
    (d : ProcessManualDepositInstructionData) : Prop :=
  ∃ call ∈ calls env es, call.ix = .processManualDeposit d ∧
    ∃ st ata core net, Holds env call.before st ∧
      st.coreState.processManualClaimedDeposit env.crypto d.txHash d.recentBlockMerkleTreeRoot
        d.recentAutoClaimTxoRoot d.combinedTxoIndex ata d.depositAmountSats = .ok (core, net)

theorem CallStep.deposited {st st' : BridgeState} {call : BridgeCall}
    {d : ProcessManualDepositInstructionData} (h : CallStep env st call st')
    (hix : call.ix = .processManualDeposit d) :
    ∃ ata core net, st.coreState.processManualClaimedDeposit env.crypto d.txHash
      d.recentBlockMerkleTreeRoot d.recentAutoClaimTxoRoot d.combinedTxoIndex ata
      d.depositAmountSats = .ok (core, net) := by
  have ha := h.accepted
  obtain ⟨inv, ix, effects, l, l'⟩ := call
  cases hix
  dsimp only at ha
  cases ha with
  | processManualDeposit accounts _ _ read run _ _ =>
    obtain rfl := CallStep.read_first h accounts read
    exact ⟨_, _, _, run⟩

/-- The accepted deposits have valid indices, and different ones for different outputs, in the
runs in which nobody sends an index of more than 53 bits, and in no others. -/
theorem output_index_unique_iff {call : BridgeCall} {params : InitializeBridgeInstructionData}
    {l₀ l₁ l₂ : Ledger} (hg : Guarded env.platform) (init : Step env l₀ (.bridge call) l₁)
    (isInit : call.ix = .initializeBridge params) (first : (l₀ (BridgeEnv.pda env)).data = [])
    (r : Run (Step env) l₁ es l₂) :
    ((∀ d, Deposited env es d → isValidTxoCombinedIndex d.combinedTxoIndex = true) ∧
        ∀ d d', Deposited env es d → Deposited env es d' →
          d.combinedTxoIndex ≠ d'.combinedTxoIndex →
          getTxoBlockNumberTxNumberOutputIndexFromCombinedIndex d.combinedTxoIndex ≠
            getTxoBlockNumberTxNumberOutputIndexFromCombinedIndex d'.combinedTxoIndex) ↔
      ∀ call ∈ calls env es, ∀ d, call.ix = .processManualDeposit d →
        d.combinedTxoIndex.toNat < 2 ^ 53 := by
  obtain ⟨st, -, hrun⟩ := state_run hg r (init.initialized hg isInit first)
  constructor
  · rintro ⟨hvalid, -⟩ call hcall d hix
    obtain ⟨st₁, st₂, hstep⟩ := hrun.step_of_mem hcall
    obtain ⟨ata, core, net, hdeposit⟩ := CallStep.deposited hstep hix
    exact isValidTxoCombinedIndex_iff.mp
      (hvalid d ⟨call, hcall, hix, st₁, ata, core, net, hstep.before, hdeposit⟩)
  · intro hsmall
    have hvalid (d) (hd : Deposited env es d) : isValidTxoCombinedIndex d.combinedTxoIndex =
        true := by
      obtain ⟨call, hcall, hix, -⟩ := hd
      exact isValidTxoCombinedIndex_iff.mpr (hsmall call hcall d hix)
    refine ⟨hvalid, ?_⟩
    intro d d' hd hd' hne heq
    exact hne (decoded_injective (hvalid d hd) (hvalid d' hd') heq)

def depositAccounts : List AccountInfo :=
  [⟨bridgeState, false, true⟩, ⟨ataKey, false, true⟩, ⟨mintKey, false, true⟩,
    ⟨TOKEN_PROGRAM_ID, false, false⟩, ⟨claimStateKey, true, false⟩]

def bridgeInvocation : Invocation := ⟨DOGE_BRIDGE_PROGRAM_ID, depositAccounts, 0, true⟩

def depositMintCall (env : BridgeEnv) (net : UInt64) : Cpi :=
  mintToCall env bridgeInvocation ⟨mintKey, false, true⟩ ⟨ataKey, false, true⟩
    ⟨bridgeState, false, true⟩ net

section

variable {deposit : ProcessManualDepositInstructionData} {net : UInt64} {l : Ledger}

theorem manual_deposit_accepted (hpda : BridgeEnv.pda env = bridgeState)
    (hclaim : claimKey env deposit.depositorSolanaPublicKey = claimStateKey)
    (htoken : env.platform.foreign TOKEN_PROGRAM_ID = cluster.platform.foreign TOKEN_PROGRAM_ID)
    (hstate : l bridgeState = ⟨DOGE_BRIDGE_PROGRAM_ID, BridgeState.pod.encode st⟩)
    (hmint : l mintKey = mintAccount bridgeState 0)
    (hata : l ataKey = tokenAccount mintKey operatorKey 0)
    (hrun : st.coreState.processManualClaimedDeposit env.crypto deposit.txHash
      deposit.recentBlockMerkleTreeRoot deposit.recentAutoClaimTxoRoot
        deposit.combinedTxoIndex ataKey
      deposit.depositAmountSats = .ok (core, net)) :
    ∃ l', Accepted env bridgeInvocation l (.processManualDeposit deposit) l'
        [.call (depositMintCall env net)] ∧
      Called env bridgeInvocation .none (depositMintCall env net)
        (l.setData bridgeState (BridgeState.pod.encode { st with coreState := core })) l' := by
  have hgranted : ∀ m ∈ (depositMintCall env net).accounts,
      bridgeInvocation.grants (depositMintCall env net) m := by
    have hsigner : (depositMintCall env net).signer = some bridgeState := congrArg some hpda
    have hrights : ∀ m ∈ [(⟨mintKey, false, true⟩ : AccountInfo), ⟨ataKey, false, true⟩,
        ⟨bridgeState, true, false⟩], bridgeInvocation.lists m.key ∧
          (m.isSigner → m.key = bridgeState) ∧ (m.isWritable → bridgeInvocation.writes m.key) := by
      decide
    intro m hm
    obtain ⟨hlisted, hsigns, hwrites⟩ := hrights m hm
    exact ⟨hlisted, fun hs => .inr (hsigner.trans (congrArg some (hsigns hs).symm)), hwrites⟩
  obtain ⟨l', hminted⟩ : ∃ l', Called env bridgeInvocation .none (depositMintCall env net)
      (l.setData bridgeState (BridgeState.pod.encode { st with coreState := core })) l' :=
    mint_called rfl htoken (fun _ _ => ⟨List.not_mem_nil, fun _ => List.not_mem_nil⟩)
      (by decide) hgranted rfl rfl
      ((setData_of_ne (by decide)).trans hmint) ((setData_of_ne (by decide)).trans hata)
  exact ⟨l', .processManualDeposit rfl rfl hclaim.symm (congrArg Account.data hstate) hrun
    (writeState_ok.mpr ⟨.inr ⟨congrArg Account.owner hstate, by decide⟩, rfl⟩) hminted, hminted⟩

end

def depositAt (index : UInt64) : ProcessManualDepositInstructionData :=
  { sampleClaim.deposit operatorKey with combinedTxoIndex := index }

def depositCall (index : UInt64) (l l' : Ledger) : BridgeCall :=
  ⟨bridgeInvocation, .processManualDeposit (depositAt index), [.call (depositMintCall cluster 990)],
    l, l'⟩

theorem deposited_and_burned
    (hrun : st.coreState.processManualClaimedDeposit crypto zeroBytes zeroBytes zeroBytes index
      ataKey 1000 = .ok (core, 990)) :
    ∃ l', Step cluster (install cluster claimLedger st) (.bridge
        (depositCall index (install cluster claimLedger st) l')) l' ∧
      Step cluster l' .other (install cluster claimLedger { st with coreState := core }) := by
  have hstate : install cluster claimLedger st bridgeState =
      ⟨DOGE_BRIDGE_PROGRAM_ID, BridgeState.pod.encode st⟩ := by
    rw [← cluster_pda]
    exact install_holds _ _ _
  have hfar {k : Pubkey} (hk : k ≠ bridgeState) : install cluster claimLedger st k =
      claimLedger k :=
    install_of_ne (by rw [cluster_pda]; exact hk)
  have hmint : install cluster claimLedger st mintKey = mintAccount bridgeState 0 := by
    rw [hfar (by decide)]
    decide
  have hata : install cluster claimLedger st ataKey = tokenAccount mintKey operatorKey 0 := by
    rw [hfar (by decide)]
    decide
  obtain ⟨l', haccepted, hminted⟩ : ∃ l', Accepted cluster bridgeInvocation
      (install cluster claimLedger st) (.processManualDeposit (depositAt index)) l'
      [.call (depositMintCall cluster 990)] ∧ _ :=
    manual_deposit_accepted cluster_pda claimStateKey_derived rfl hstate hmint hata hrun
  have hbefore : (install cluster claimLedger st).setData bridgeState
      (BridgeState.pod.encode { st with coreState := core }) =
      install cluster claimLedger { st with coreState := core } := by
    rw [Ledger.setData, hstate, install, install, cluster_pda, Function.update_idem]
  rw [hbefore] at hminted
  refine ⟨l', step_of_accepted rfl haccepted, .other ⟨?_, ?_⟩⟩
  · intro k hk
    rw [minted_owner rfl hminted] at hk
    refine (minted_elsewhere rfl hminted ?_).symm
    intro htoken
    rw [htoken] at hk
    rcases hk with hbridge | hbuffer
    · exact absurd hbridge (by decide)
    · exact absurd hbuffer (by decide)
  · intro k hk hnot
    rw [minted_owner rfl hminted] at hnot
    exact absurd hk hnot

theorem deposited_of_step {l l' : Ledger} (hs : Holds cluster l st)
    (hmem : .bridge (depositCall index l l') ∈ es)
    (hrun : st.coreState.processManualClaimedDeposit crypto zeroBytes zeroBytes zeroBytes index
      ataKey 1000 = .ok (core, 990)) : Deposited cluster es (depositAt index) := by
  refine ⟨depositCall index l l', ?_, rfl, st, ataKey, core, 990, hs, hrun⟩
  exact List.mem_filterMap.mpr ⟨_, hmem, onState_of_on ⟨_, _, rfl, cluster_pda.symm⟩⟩

/-- The first output of block 0, claimed under index 0. -/
theorem first_output_index_unique :
    ∃ es₁ es l₁ l₂, Step cluster claimLedger (.bridge (genesisCall es₁ claimLedger l₁)) l₁ ∧
      Run (Step cluster) l₁ es l₂ ∧ Deposited cluster es (depositAt 0) ∧
      ∀ d, Deposited cluster es d → isValidTxoCombinedIndex d.combinedTxoIndex = true := by
  have hunused : claimLedger (BridgeEnv.pda cluster) = ⟨SYSTEM_PROGRAM_ID, []⟩ := by
    rw [cluster_pda]
    decide
  obtain ⟨es₁, _, hinit, rfl⟩ := genesis_step hunused
  obtain ⟨core, hrun⟩ := net_1000
  obtain ⟨l', hdeposit, -⟩ := deposited_and_burned hrun
  refine ⟨es₁, _, _, l', hinit, .single hdeposit,
    deposited_of_step (install_holds _ _ _) (List.mem_singleton_self _) hrun, ?_⟩
  refine ((output_index_unique_iff cluster_guarded hinit rfl (congrArg Account.data hunused)
    (.single hdeposit)).mpr ?_).1
  intro call hcall d hix
  cases List.mem_singleton.mp (mem_of_mem_calls hcall).1
  cases hix
  decide

/-- The first output of block 0, claimed under index 0 and again under index 2 ^ 53. -/
theorem output_claimed_twice :
    ∃ es₁ es l₁ l₂, Step cluster claimLedger (.bridge (genesisCall es₁ claimLedger l₁)) l₁ ∧
      Run (Step cluster) l₁ es l₂ ∧ Deposited cluster es (depositAt 0) ∧
      Deposited cluster es (depositAt 9007199254740992) ∧
      getTxoBlockNumberTxNumberOutputIndexFromCombinedIndex 0 =
        getTxoBlockNumberTxNumberOutputIndexFromCombinedIndex 9007199254740992 ∧
      isValidTxoCombinedIndex 9007199254740992 = false := by
  have hunused : claimLedger (BridgeEnv.pda cluster) = ⟨SYSTEM_PROGRAM_ID, []⟩ := by
    rw [cluster_pda]
    decide
  have hsame : txoBlockNumber 9007199254740992 = txoBlockNumber 0 := by decide
  obtain ⟨es₁, _, hinit, rfl⟩ := genesis_step hunused
  obtain ⟨core, hrun⟩ := net_1000
  obtain ⟨core', hrun'⟩ := claimable_again hrun hsame
  obtain ⟨l', hfirst, hburn⟩ := deposited_and_burned hrun
  obtain ⟨l'', hsecond, -⟩ : ∃ l'', Step cluster (install cluster claimLedger ⟨core, mintKey⟩) _
    l'' ∧ _ := deposited_and_burned hrun'
  refine ⟨es₁, _, _, l'', hinit, ((Run.single hfirst).snoc hburn).snoc hsecond, ?_, ?_, ?_, ?_⟩
  · exact deposited_of_step (install_holds _ _ _)
      (List.mem_append_left _ (List.mem_append_left _ (List.mem_singleton_self _))) hrun
  · exact deposited_of_step (install_holds _ _ ⟨core, mintKey⟩)
      (List.mem_append_right _ (List.mem_singleton_self _)) hrun'
  · decide
  · decide

end Indices

end ManualDeposits
