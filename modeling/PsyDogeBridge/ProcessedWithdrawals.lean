import PsyDogeBridge.SignedCalls

/-! Which withdrawal requests an accepted withdrawal counts as processed. The index comes with the
instruction and only the proof speaks about it. -/
namespace ProcessedWithdrawals

open CheckedSteps SolanaRuntime BridgeData ProgramState BridgeCalls BridgeProcessor BridgeSystem
  LocalCluster StateHistory StateRuns SignedCalls

variable {env : BridgeEnv} {st st' : BridgeState} {es : List Event}

/-- The processed requests are in the snapshot, and the snapshot is of requests that were made. -/
structure Ordered (s : PsyBridgeProgramState) : Prop where
  processed : s.nextProcessedWithdrawalsIndex ≤
    s.withdrawalSnapshot.nextRequestedWithdrawalsTreeIndex
  snapshot : s.withdrawalSnapshot.nextRequestedWithdrawalsTreeIndex ≤
    s.requestedWithdrawalsTree.nextIndex

def inBounds (s : PsyBridgeProgramState) : BridgeInstruction → Prop
  | .processWithdrawal params =>
    s.nextProcessedWithdrawalsIndex ≤ params.newNextProcessedWithdrawalsIndex ∧
      params.newNextProcessedWithdrawalsIndex ≤
        s.withdrawalSnapshot.nextRequestedWithdrawalsTreeIndex
  | .requestWithdrawal _ => s.requestedWithdrawalsTree.nextIndex ≠ 0xFFFFFFFFFFFFFFFF
  | _ => True

def keepsBounds (env : BridgeEnv) : Event → Prop
  | .bridge call => call.on (BridgeEnv.pda env) → ∀ st, Holds env call.before st →
      inBounds st.coreState call.ix
  | _ => True

def processedRange (env : BridgeEnv) : BridgeCall → Option (UInt64 × UInt64)
  | { ix := .processWithdrawal params, before := l, .. } =>
    some ((BridgeState.pod.decode
      (l (BridgeEnv.pda env)).data).coreState.nextProcessedWithdrawalsIndex,
      params.newNextProcessedWithdrawalsIndex)
  | _ => none

def processedRanges (env : BridgeEnv) (cs : List BridgeCall) : List (UInt64 × UInt64) :=
  cs.filterMap (processedRange env)

theorem Update.ordered {ix : BridgeInstruction} (h : Update env st ix st')
    (hinit : ∀ params, ix ≠ .initializeBridge params) (hb : inBounds st.coreState ix)
    (ho : Ordered st.coreState) : Ordered st'.coreState ∧
      st.coreState.nextProcessedWithdrawalsIndex ≤ st'.coreState.nextProcessedWithdrawalsIndex := by
  have hle := UInt64.le_refl st.coreState.nextProcessedWithdrawalsIndex
  cases h with
  | initializeBridge params => exact absurd rfl (hinit params)
  | requestWithdrawal => exact ⟨⟨ho.processed, UInt64.le_trans ho.snapshot (le_add_one_64 hb)⟩, hle⟩
  | processWithdrawal => exact ⟨⟨hb.2, ho.snapshot⟩, hb.1⟩
  | snapshotWithdrawals =>
    exact ⟨⟨UInt64.le_trans ho.processed ho.snapshot, UInt64.le_refl _⟩, hle⟩
  | _ => exact ⟨⟨ho.processed, ho.snapshot⟩, hle⟩

theorem CallStep.range {call : BridgeCall} {range : UInt64 × UInt64} (h : CallStep env st call st')
    (hrange : processedRange env call = some range) :
    range = (st.coreState.nextProcessedWithdrawalsIndex,
      st'.coreState.nextProcessedWithdrawalsIndex) := by
  have hread := CallStep.read h
  have hupdate := StateStep.update h.step
  obtain ⟨inv, ix, effects, l, l'⟩ := call
  cases ix with
  | processWithdrawal params =>
    cases hupdate
    cases hrange
    dsimp only at hread
    rw [hread]
    rfl
  | _ => cases hrange

/-- The ranges so far are apart from one another and end before the next index. -/
structure Apart (ranges : List (UInt64 × UInt64)) (next : UInt64) : Prop where
  below : ∀ range ∈ ranges, range.2 ≤ next
  disjoint : ranges.Pairwise fun a b => ∀ i, a.1 ≤ i → i < a.2 → ¬ (b.1 ≤ i ∧ i < b.2)

theorem Apart.grow {ranges : List (UInt64 × UInt64)} {old new : UInt64} (h : Apart ranges old)
    (hle : old ≤ new) : Apart ranges new :=
  ⟨fun range hr => UInt64.le_trans (h.below range hr) hle, h.disjoint⟩

theorem Apart.append {ranges : List (UInt64 × UInt64)} {old new : UInt64} (h : Apart ranges old)
    (hle : old ≤ new) : Apart (ranges ++ [(old, new)]) new := by
  constructor
  · intro range hr
    rcases List.mem_append.mp hr with hr | hr
    · exact (h.grow hle).below range hr
    · cases List.mem_singleton.mp hr
      exact UInt64.le_refl _
  · refine List.pairwise_append.mpr ⟨h.disjoint, List.pairwise_singleton _ _, ?_⟩
    intro a ha b hb i _ hi hin
    cases List.mem_singleton.mp hb
    exact UInt64.not_le.mpr hi (UInt64.le_trans (h.below a ha) hin.1)

theorem CallStep.apart {call : BridgeCall} {cs : List BridgeCall} (h : CallStep env st call st')
    (hle : st.coreState.nextProcessedWithdrawalsIndex ≤ st'.coreState.nextProcessedWithdrawalsIndex)
    (ha : Apart (processedRanges env cs) st.coreState.nextProcessedWithdrawalsIndex) :
    Apart (processedRanges env (cs ++ [call])) st'.coreState.nextProcessedWithdrawalsIndex := by
  rw [processedRanges, List.filterMap_append]
  cases hr : processedRange env call with
  | none =>
    rw [List.filterMap_cons_none hr, List.filterMap_nil, List.append_nil]
    exact ha.grow hle
  | some range =>
    rw [List.filterMap_cons_some hr, List.filterMap_nil, CallStep.range h hr]
    exact ha.append hle

def Advanced (env : BridgeEnv) (call : BridgeCall) : Prop :=
  ∃ st st', Holds env call.before st ∧ Holds env call.after st' ∧
    st.coreState.nextProcessedWithdrawalsIndex ≤ st'.coreState.nextProcessedWithdrawalsIndex ∧
    st'.coreState.nextProcessedWithdrawalsIndex ≤
      st'.coreState.withdrawalSnapshot.nextRequestedWithdrawalsTreeIndex

/-- In a run whose withdrawals all stay within the snapshot, none of them goes back, the index
never passes the requests that were made, and no request is processed twice. -/
theorem processed_once_in_bounds {call : BridgeCall} {params : InitializeBridgeInstructionData}
    {l₀ l₁ l₂ : Ledger} (hg : Guarded env.platform) (init : Step env l₀ (.bridge call) l₁)
    (isInit : call.ix = .initializeBridge params) (first : (l₀ (BridgeEnv.pda env)).data = [])
    (r : Run (Step env) l₁ es l₂) (once : ∀ e ∈ es, ¬ isInitialize e)
    (bounded : ∀ e ∈ es, keepsBounds env e) :
    (∀ call ∈ calls env es, Advanced env call) ∧
      (∃ st, Holds env l₂ st ∧ st.coreState.nextProcessedWithdrawalsIndex ≤
        st.coreState.requestedWithdrawalsTree.nextIndex) ∧
      (processedRanges env (calls env es)).Pairwise fun a b =>
        ∀ i, a.1 ≤ i → i < a.2 → ¬ (b.1 ≤ i ∧ i < b.2) := by
  obtain ⟨st, hs, hrun⟩ := state_run hg r (init.initialized hg isInit first)
  have hbounds : ∀ call ∈ calls env es, ∀ st, Holds env call.before st →
      inBounds st.coreState call.ix := by
    intro call hcall
    obtain ⟨hmem, hon⟩ := mem_of_mem_calls hcall
    exact bounded _ hmem hon
  have hinvariant := (hrun.restrict fun call hcall =>
      And.intro (calls_notInit once call hcall) (hbounds call hcall)).history
    (P := fun _ cs st => Ordered st.coreState ∧
      Apart (processedRanges env cs) st.coreState.nextProcessedWithdrawalsIndex ∧
      ∀ call ∈ cs, Advanced env call)
    ⟨⟨UInt64.le_refl _, UInt64.le_refl _⟩, ⟨fun _ h => absurd h List.not_mem_nil, .nil⟩,
      fun _ h => absurd h List.not_mem_nil⟩ ?_
  · obtain ⟨hordered, hapart, hadvanced⟩ := hinvariant
    refine ⟨hadvanced, ⟨st, hs, ?_⟩, hapart.disjoint⟩
    exact UInt64.le_trans hordered.processed hordered.snapshot
  · intro cs st₁ call st₂ _ ⟨hordered, hapart, hadvanced⟩ ⟨hstep, hni, hb⟩
    obtain ⟨hordered', hle⟩ := Update.ordered (StateStep.update hstep.step) hni
      (hb st₁ hstep.before) hordered
    refine ⟨hordered', CallStep.apart hstep hle hapart, ?_⟩
    intro call' hcall'
    rcases List.mem_append.mp hcall' with h | h
    · exact hadvanced call' h
    · cases List.mem_singleton.mp h
      exact ⟨st₁, st₂, hstep.before, hstep.after, hle, hordered'.processed⟩

def txLedger : Ledger :=
  Function.update emptyLedger txBuffer
    ⟨GENERIC_BUFFER_BUILDER_PROGRAM_ID, List.replicate 32 0 ++ [1, 2, 3]⟩

theorem txLedger_unused : txLedger (BridgeEnv.pda cluster) = ⟨SYSTEM_PROGRAM_ID, []⟩ := by
  have hne : bridgeState ≠ txBuffer := by decide
  rw [cluster_pda, txLedger, Function.update_of_ne hne]
  rfl

/-- A withdrawal that processes a request before any was made. -/
theorem processed_beyond_requests :
    ∃ es₁ l₁ l₂ c, Step cluster txLedger (.bridge (genesisCall es₁ txLedger l₁)) l₁ ∧
      Step cluster l₁ (.bridge ⟨withdrawalInvocation cluster NOOP_SHIM_PROGRAM_ID operatorKey
        txBuffer, .processWithdrawal (withdrawalData cluster [1, 2, 3]), [.call c], l₁, l₂⟩) l₂ ∧
      ∃ st, Holds cluster l₂ st ∧ st.coreState.nextProcessedWithdrawalsIndex = 1 ∧
        st.coreState.withdrawalSnapshot.nextRequestedWithdrawalsTreeIndex = 0 ∧
        st.coreState.requestedWithdrawalsTree.nextIndex = 0 := by
  have hhash : crypto.sha256 [1, 2, 3] =
      (withdrawalData cluster [1, 2, 3]).newReturnOutput.sighash := rfl
  obtain ⟨es₁, l₁, l₂, c, h₁, h₂, -, hl₂⟩ :=
    cluster_withdrawal txLedger_unused (Function.update_self ..) hhash
  exact ⟨es₁, l₁, l₂, c, h₁, h₂, _, hl₂ ▸ install_holds _ _ _, rfl, rfl, rfl⟩

def requestLedger : Ledger :=
  Function.update (tokenLedger mintKey) txBuffer
    ⟨GENERIC_BUFFER_BUILDER_PROGRAM_ID, List.replicate 32 0 ++ [1, 2, 3]⟩

theorem requestLedger_of_ne {k : Pubkey} (hk : k ≠ txBuffer) :
    requestLedger k = tokenLedger mintKey k := Function.update_of_ne hk ..

/-- `processed_once_in_bounds` for a request, a snapshot of it and a withdrawal that processes
it. -/
theorem request_processed_once :
    ∃ es₁ l₁ l₂ request snapshot withdrawal st,
      Step cluster requestLedger (.bridge (genesisCall es₁ requestLedger l₁)) l₁ ∧
      Run (Step cluster) l₁ [.bridge request, .bridge snapshot, .bridge withdrawal] l₂ ∧
      request.ix = .requestWithdrawal sampleRequest ∧ snapshot.ix = .snapshotWithdrawals ∧
      withdrawal.ix = .processWithdrawal (withdrawalData cluster [1, 2, 3]) ∧
      (∀ call ∈ [request, snapshot, withdrawal], Advanced cluster call) ∧
      Holds cluster l₂ st ∧ st.coreState.nextProcessedWithdrawalsIndex = 1 ∧
      st.coreState.nextProcessedWithdrawalsIndex ≤
        st.coreState.requestedWithdrawalsTree.nextIndex := by
  have hunused : requestLedger (BridgeEnv.pda cluster) = ⟨SYSTEM_PROGRAM_ID, []⟩ := by
    rw [requestLedger_of_ne (cluster_pda ▸ by decide), tokenLedger_unused]
  obtain ⟨es₁, l₁, h₁, hl₁⟩ := genesis_step hunused
  have hkept₁ {k : Pubkey} (hk : k ≠ bridgeState) : l₁ k = requestLedger k := by
    rw [hl₁, install_of_ne (ne_pda hk)]
  have hs₁ : Holds cluster l₁ (genesisState operatorKey 10) := hl₁ ▸ install_holds _ _ _
  obtain ⟨core, hrun, hrequested, hprocessed, hoperator⟩ := genesis_requested
  obtain ⟨es₂, l₂, h₂, hs₂, hkept₂⟩ := cluster_request (.inl rfl) hs₁
    ((hkept₁ (by decide)).trans (requestLedger_of_ne (by decide)))
    ((hkept₁ (by decide)).trans (requestLedger_of_ne (by decide))) hrun
  obtain ⟨l₃, h₃, hl₃⟩ := snapshot_step hs₂
  have hs₃ := hl₃ ▸ install_holds cluster l₂ _
  have hbuffer : l₃ txBuffer =
      ⟨GENERIC_BUFFER_BUILDER_PROGRAM_ID, List.replicate 32 0 ++ [1, 2, 3]⟩ := by
    rw [hl₃, install_of_ne (ne_pda (by decide)), hkept₂ _ (by decide) (by decide) (by decide),
      hkept₁ (by decide)]
    exact Function.update_self ..
  have hpasses : LetsPass cluster NOOP_SHIM_PROGRAM_ID operatorKey txBuffer :=
    fun _ _ hp ha => noopShim_callee hp ha
  obtain ⟨l₄, h₄, hl₄⟩ := withdrawal_step (withdrawalData cluster [1, 2, 3]) (fun _ _ _ => rfl)
    ⟨rfl, rfl⟩ hs₃ hbuffer rfl (by decide) hpasses
  dsimp only at h₃ h₄
  rw [hoperator] at h₃
  have hrun₄ := ((Run.single h₂).append (.single h₃)).append (.single h₄)
  obtain ⟨hadvanced, ⟨st, hst, hle⟩, -⟩ := processed_once_in_bounds cluster_guarded h₁ rfl
    (congrArg Account.data hunused) hrun₄ (by
      simp only [List.forall_mem_append, List.forall_mem_singleton]
      exact ⟨⟨id, id⟩, id⟩) (by
      simp only [List.forall_mem_append, List.forall_mem_singleton]
      refine ⟨⟨?_, fun _ _ _ => trivial⟩, ?_⟩
      · intro _ st hst
        rw [Holds.unique hst hs₁]
        change (0 : UInt64) ≠ 0xFFFFFFFFFFFFFFFF
        decide
      · intro _ st hst
        rw [Holds.unique hst hs₃]
        change core.nextProcessedWithdrawalsIndex ≤ 1 ∧ 1 ≤ core.requestedWithdrawalsTree.nextIndex
        rw [hprocessed, hrequested]
        decide)
  refine ⟨es₁, l₁, l₄, _, _, _, st, h₁, hrun₄, rfl, rfl, rfl, ?_, hst, ?_, hle⟩
  · rw [calls_append, calls_append, calls_single, calls_single, calls_single] at hadvanced
    · exact hadvanced
    · exact withdrawalInvocation_on _ _ _ _
    · exact snapshotInvocation_on _ _
    · exact requestInvocation_on _ _
  · rw [Holds.unique hst (hl₄ ▸ install_holds _ _ _)]
    rfl

end ProcessedWithdrawals
