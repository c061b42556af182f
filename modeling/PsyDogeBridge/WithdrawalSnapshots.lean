import PsyDogeBridge.AppendHistory
import PsyDogeBridge.WithdrawalAccounting

/-! The snapshot that withdrawals are proved against, over whole runs: it is a view of an earlier
moment, of the requests, of the manual deposits and of the finalized block. -/
namespace WithdrawalSnapshots

open CheckedSteps SolanaRuntime BridgeData AppendTree ProgramState BridgeCalls BridgeSystem
  StateHistory StateRuns AppendHistory

variable {env : BridgeEnv} {st st' : BridgeState} {es : List Event} {call : BridgeCall}
  {cs : List BridgeCall}

def configBefore (env : BridgeEnv) (call : BridgeCall) : PsyBridgeConfig :=
  (BridgeState.pod.decode (call.before (BridgeEnv.pda env)).data).coreState.configParams

def requestLeaf (env : BridgeEnv) (call : BridgeCall) : Option QHash256 :=
  match call.ix with
  | .requestWithdrawal request =>
    (calcuateWithdrawalFee request.amountSats (configBefore env call).withdrawalFlatFeeSats
      (configBefore env call).withdrawalFeeRateNumerator
      (configBefore env call).withdrawalFeeRateDenominator).map fun r =>
        PsyWithdrawalRequest.toLeaf
          ⟨r.amountAfterFees, request.addressType, request.recipientAddress⟩
  | _ => none

def depositLeaf (env : BridgeEnv) (call : BridgeCall) : Option QHash256 :=
  match call.ix, call.inv.accounts[1]? with
  | .processManualDeposit params, some recipient =>
    (calcuateDepositFee params.depositAmountSats (configBefore env call).depositFlatFeeSats
      (configBefore env call).depositFeeRateNumerator
      (configBefore env call).depositFeeRateDenominator).map fun r =>
        hashDepositLeaf env.crypto params.txHash params.combinedTxoIndex recipient.key
          r.amountAfterFees
  | _, _ => none

def requested (env : BridgeEnv) (cs : List BridgeCall) : List QHash256 :=
  cs.filterMap (requestLeaf env)

def deposited (env : BridgeEnv) (cs : List BridgeCall) : List QHash256 :=
  cs.filterMap (depositLeaf env)

theorem CallStep.configBefore (h : CallStep env st call st') :
    configBefore env call = st.coreState.configParams := by
  rw [WithdrawalSnapshots.configBefore, h.read]

theorem CallStep.requested (h : CallStep env st call st') (hinit : notInit call) :
    st'.coreState.requestedWithdrawalsTree = (requestLeaf env call).toList.foldl
      (FixedMerkleAppendTree.append env.crypto) st.coreState.requestedWithdrawalsTree := by
  have hconfig := CallStep.configBefore h
  have hupdate := StateStep.update h.step
  obtain ⟨inv, ix, effects, l, l'⟩ := call
  cases hupdate with
  | initializeBridge params => exact absurd rfl (hinit params)
  | requestWithdrawal fee =>
    dsimp only [requestLeaf]
    rw [hconfig, fee]
    rfl
  | _ => rfl

theorem CallStep.deposited (hg : Guarded env.platform) (h : CallStep env st call st')
    (hinit : notInit call) :
    st'.coreState.manualDepositsTree = (depositLeaf env call).toList.foldl
      (FixedMerkleAppendTree.append env.crypto) st.coreState.manualDepositsTree := by
  have hconfig := CallStep.configBefore h
  have hupdate := StateStep.update h.step
  obtain ⟨inv, ix, effects, l, l'⟩ := call
  cases hupdate with
  | initializeBridge params => exact absurd rfl (hinit params)
  | processManualDeposit =>
    -- The step does not say who receives the tokens, so the accounts are needed.
    have haccepted := h.accepted
    dsimp only at haccepted
    cases haccepted with
    | processManualDeposit accounts _ _ read run write mint =>
      obtain ⟨rfl, hst⟩ := h.written accounts read write (callee_untouched hg mint.2.2.2)
      obtain ⟨-, -, r, hfee, -, -, rfl, -⟩ :=
        PsyBridgeProgramState.processManualClaimedDeposit_ok.mp run
      rw [hst]
      dsimp only [depositLeaf]
      rw [show inv.accounts = _ from accounts, hconfig]
      dsimp only [List.getElem?_cons_succ, List.getElem?_cons_zero]
      rw [hfee]
      rfl
  | _ => rfl

def takesSnapshot (call : BridgeCall) : Prop := call.ix = .snapshotWithdrawals

theorem CallStep.snapshot (h : CallStep env st call st') (hinit : notInit call) :
    (takesSnapshot call ∧ ∃ now, st' = withCore st (st.coreState.snapshotForWithdrawal now)) ∨
      (¬ takesSnapshot call ∧
        st'.coreState.withdrawalSnapshot = st.coreState.withdrawalSnapshot) := by
  have hupdate := StateStep.update h.step
  obtain ⟨inv, ix, effects, l, l'⟩ := call
  cases hupdate with
  | initializeBridge params => exact absurd rfl (hinit params)
  | snapshotWithdrawals => exact .inl ⟨rfl, _, rfl⟩
  | _ =>
    refine .inr ⟨?_, rfl⟩
    intro htakes
    cases htakes

/-- Once one was taken, the snapshot is one of an earlier state of the run. -/
theorem run_snapshot (r : Run (CallStep env) st cs st') (hinit : ∀ call ∈ cs, notInit call)
    (taken : ∃ call ∈ cs, takesSnapshot call) :
    ∃ before call after st₀ now, cs = before ++ call :: after ∧ takesSnapshot call ∧
      Run (CallStep env) st before st₀ ∧ Holds env call.before st₀ ∧
      Run (CallStep env) st₀ (call :: after) st' ∧
      st'.coreState.withdrawalSnapshot =
        (st₀.coreState.snapshotForWithdrawal now).withdrawalSnapshot := by
  induction r with
  | nil =>
    obtain ⟨call, hmem, -⟩ := taken
    cases hmem
  | @snoc st₁ st₂ cs last r h ih =>
    have hlast : notInit last := hinit last (List.mem_append_right _ (List.mem_singleton_self _))
    rcases CallStep.snapshot h hlast with ⟨htakes, now, heq⟩ | ⟨hnot, hsame⟩
    · refine ⟨cs, last, [], st₁, now, rfl, htakes, r, h.before, .single h, ?_⟩
      rw [heq]
      rfl
    · have hearlier : ∃ call ∈ cs, takesSnapshot call := by
        obtain ⟨call, hmem, htakes⟩ := taken
        rcases List.mem_append.mp hmem with hmem | hmem
        · exact ⟨call, hmem, htakes⟩
        · rw [List.mem_singleton.mp hmem] at htakes
          exact absurd htakes hnot
      obtain ⟨before, call, after, st₀, now, rfl, htakes, r₀, hs₀, r₁, hsnapshot⟩ :=
        ih (fun call hmem => hinit call (List.mem_append_left _ hmem)) hearlier
      refine ⟨before, call, after ++ [last], st₀, now, ?_, htakes, r₀, hs₀, .snoc r₁ h,
        hsame.trans hsnapshot⟩
      rw [List.append_assoc, List.cons_append]

structure RootOfFirst (c : Crypto) (xs : List QHash256) (root : QHash256) (index current : UInt64) :
    Prop where
  root : root = treeRoot c (xs.take index.toNat)
  within : index.toNat ≤ xs.length
  earlier : index ≤ current

theorem rootOfFirst {c : Crypto} {xs ys : List QHash256} {t u : FixedMerkleAppendTree}
    (table : TableConsistent c) (few : (xs ++ ys).length < 2 ^ 32)
    (ht : t = xs.foldl (FixedMerkleAppendTree.append c) .newEmpty)
    (hu : u = (xs ++ ys).foldl (FixedMerkleAppendTree.append c) .newEmpty) :
    RootOfFirst c (xs ++ ys) t.getRoot t.nextIndex u.nextIndex := by
  have hlen : xs.length ≤ (xs ++ ys).length := List.length_append ▸ Nat.le_add_right _ _
  have hxs := appended_represents (c := c) table (hlen.trans few.le)
  have hys := appended_represents (c := c) table few.le
  rw [← ht] at hxs
  rw [← hu] at hys
  refine ⟨?_, ?_, ?_⟩
  · rw [hxs.next, List.take_left]
    exact hxs.root
  · rw [hxs.next]
    exact hlen
  · rw [UInt64.le_iff_toNat_le, hxs.next, hys.next]
    exact hlen

/-- What the snapshot of a state shows after the instructions `cs`. -/
structure SnapshotShows (env : BridgeEnv) (cs : List BridgeCall) (st : BridgeState) : Prop where
  requested : RootOfFirst env.crypto (requested env cs)
    st.coreState.withdrawalSnapshot.requestedWithdrawalsTreeRoot
    st.coreState.withdrawalSnapshot.nextRequestedWithdrawalsTreeIndex
    st.coreState.requestedWithdrawalsTree.nextIndex
  deposited : RootOfFirst env.crypto (deposited env cs)
    st.coreState.withdrawalSnapshot.manualDepositsTreeRoot
    st.coreState.withdrawalSnapshot.nextManualDepositsTreeIndex
    st.coreState.manualDepositsTree.nextIndex
  finalized : ∃ call ∈ cs, ∃ st₀, Holds env call.before st₀ ∧
    st.coreState.withdrawalSnapshot.blockHeight =
      st₀.coreState.bridgeHeader.finalizedState.blockHeight ∧
    st.coreState.withdrawalSnapshot.blockMerkleTreeRoot =
      st₀.coreState.bridgeHeader.finalizedState.blockMerkleTreeRoot ∧
    st.coreState.withdrawalSnapshot.autoClaimedDepositsTreeRoot =
      st₀.coreState.bridgeHeader.finalizedState.autoClaimedDepositsTreeRoot ∧
    st₀.coreState.bridgeHeader.finalizedState.blockHeight ≤
      st.coreState.bridgeHeader.finalizedState.blockHeight

/-- In every run after the one INITIALIZE, once a snapshot was taken. -/
theorem snapshot_shows_earlier_state {init : BridgeCall} {params : InitializeBridgeInstructionData}
    {l₀ l₁ l₂ : Ledger} (hg : Guarded env.platform) (table : TableConsistent env.crypto)
    (started : Step env l₀ (.bridge init) l₁) (isInit : init.ix = .initializeBridge params)
    (first : (l₀ (BridgeEnv.pda env)).data = []) (r : Run (Step env) l₁ es l₂)
    (once : ∀ e ∈ es, ¬ isInitialize e)
    (fewRequests : (requested env (calls env es)).length < 2 ^ 32)
    (fewDeposits : (deposited env (calls env es)).length < 2 ^ 32)
    (low : ∀ call ∈ init :: calls env es, keepsLow call)
    (taken : ∃ call ∈ calls env es, takesSnapshot call) :
    ∃ st, Holds env l₂ st ∧ SnapshotShows env (calls env es) st := by
  obtain ⟨st, hs, hrun⟩ := state_run hg r (started.initialized hg isInit first)
  have hinit : ∀ call ∈ calls env es, notInit call := calls_notInit once
  refine ⟨st, hs, ?_⟩
  obtain ⟨before, call, after, st₀, now, hcs, -, r₀, hs₀, r₁, hsnapshot⟩ :=
    run_snapshot hrun hinit taken
  have hinit₀ : ∀ c ∈ before, notInit c := fun c hc => hinit c (hcs ▸ List.mem_append_left _ hc)
  have hinit₁ : ∀ c ∈ call :: after, notInit c :=
    fun c hc => hinit c (hcs ▸ List.mem_append_right _ hc)
  have hkeeps : ∀ c ∈ before ++ call :: after, keepsLow c :=
    fun c hc => low c (List.mem_cons_of_mem _ (hcs ▸ hc))
  have hlow : lowHeight params.bridgeHeader :=
    low init List.mem_cons_self params.bridgeHeader (by rw [isInit]; rfl)
  have hheight₀ := run_height r₀ hinit₀ hlow fun c hc => hkeeps c (List.mem_append_left _ hc)
  have hheight := run_height r₁ hinit₁ hheight₀.1 fun c hc => hkeeps c (List.mem_append_right _ hc)
  rw [hcs] at hrun hinit fewRequests fewDeposits ⊢
  have hrequested : requested env (before ++ call :: after) =
      requested env before ++ requested env (call :: after) := List.filterMap_append
  have hdeposited : deposited env (before ++ call :: after) =
      deposited env before ++ deposited env (call :: after) := List.filterMap_append
  rw [hrequested] at fewRequests
  rw [hdeposited] at fewDeposits
  constructor
  · rw [hrequested, hsnapshot]
    refine rootOfFirst table fewRequests (run_appended (fun _ _ _ => CallStep.requested) r₀ hinit₀)
      ?_
    rw [← hrequested]
    exact run_appended (fun _ _ _ => CallStep.requested) hrun hinit
  · rw [hdeposited, hsnapshot]
    refine rootOfFirst table fewDeposits
      (run_appended (fun _ _ _ => CallStep.deposited hg) r₀ hinit₀) ?_
    rw [← hdeposited]
    exact run_appended (fun _ _ _ => CallStep.deposited hg) hrun hinit
  · rw [hsnapshot]
    exact ⟨call, List.mem_append_right _ List.mem_cons_self, st₀, hs₀, rfl, rfl, rfl, hheight.2⟩

section Samples

open LocalCluster WithdrawalAccounting

abbrev snapshotCall (l l' : Ledger) : BridgeCall :=
  ⟨snapshotInvocation cluster operatorKey, .snapshotWithdrawals, [], l, l'⟩

/-- A request and then a snapshot on the cluster. -/
theorem first_snapshot_shows :
    ∃ es₁ es₂ l₁ l₂ l₃ st,
      Step cluster (tokenLedger mintKey) (.bridge (genesisCall es₁ (tokenLedger mintKey) l₁)) l₁ ∧
      Step cluster l₁ (.bridge (requestCall mintKey es₂ l₁ l₂)) l₂ ∧
      Step cluster l₂ (.bridge (snapshotCall l₂ l₃)) l₃ ∧
      Holds cluster l₃ st ∧ SnapshotShows cluster
        [requestCall mintKey es₂ l₁ l₂, snapshotCall l₂ l₃] st := by
  obtain ⟨es₁, l₁, h₁, hl₁⟩ := genesis_step (tokenLedger_unused mintKey)
  obtain ⟨core, hrun, -, -, hoperator⟩ := genesis_requested
  obtain ⟨es₂, l₂, h₂, hs₂, -⟩ := cluster_request (.inl rfl) (hl₁ ▸ install_holds _ _ _)
    (hl₁ ▸ cluster_install_of_ne (by decide)) (hl₁ ▸ cluster_install_of_ne (by decide)) hrun
  obtain ⟨l₃, h₃, -⟩ := snapshot_step hs₂
  dsimp only at h₃
  rw [hoperator] at h₃
  have hcalls : calls cluster ([.bridge (requestCall mintKey es₂ l₁ l₂)] ++
      [.bridge (snapshotCall l₂ l₃)]) =
      [requestCall mintKey es₂ l₁ l₂, snapshotCall l₂ l₃] := by
    rw [calls_append, calls_single, calls_single, List.singleton_append]
    · exact snapshotInvocation_on _ _
    · exact requestInvocation_on _ _
  have hfew {leaf : BridgeCall → Option QHash256} (c c' : BridgeCall) :
      ([c, c'].filterMap leaf).length < 2 ^ 32 :=
    lt_of_le_of_lt (List.length_filterMap_le _ _) (Nat.lt_of_sub_pos (by decide : 0 < 2 ^ 32 - 2))
  have hgenesis : lowHeight (genesisParams operatorKey 10).bridgeHeader := by decide
  obtain ⟨st, hs, hshows⟩ := snapshot_shows_earlier_state cluster_guarded shaOnly_table h₁ rfl
    (congrArg Account.data (tokenLedger_unused mintKey)) ((Run.single h₂).append (.single h₃))
    (by
      rw [List.forall_mem_append, List.forall_mem_singleton, List.forall_mem_singleton]
      exact ⟨id, id⟩)
    (hcalls ▸ hfew _ _) (hcalls ▸ hfew _ _)
    (by
      rw [hcalls, List.forall_mem_cons, List.forall_mem_cons, List.forall_mem_singleton]
      refine ⟨?_, ?_, ?_⟩
      · intro h hnew
        cases hnew
        exact hgenesis
      · intro h hnew
        cases hnew
      · intro h hnew
        cases hnew)
    (hcalls ▸ ⟨_, List.mem_cons_of_mem _ List.mem_cons_self, rfl⟩)
  exact ⟨es₁, es₂, l₁, l₂, l₃, st, h₁, h₂, h₃, hs, hcalls ▸ hshows⟩

end Samples

end WithdrawalSnapshots
