import Mathlib.Data.UInt
import PsyDogeBridge.StateHistory

/-! What was requested for withdrawal, what was burned for it and what was recorded, over whole
runs. -/
namespace WithdrawalAccounting

open PodLayout CheckedSteps SolanaRuntime BridgeData ProgramState BridgeCalls BridgeProcessor
  AcceptedInstructions BridgeSystem LocalCluster StateHistory StateRuns

variable {env : BridgeEnv} {inv : Invocation} {l l' : Ledger} {e : Event} {es : List Event}
  {st st' : BridgeState}

def zeroConfig : PsyBridgeConfig := ⟨0, 0, 0, 0, 0, 0⟩

/-- Anybody can hand accounts of zero bytes to the bridge and use them as a state, but no such
account is ever configured. -/
def Unconfigured (env : BridgeEnv) (l : Ledger) : Prop :=
  ∀ k st, k ≠ BridgeEnv.pda env → (l k).owner = DOGE_BRIDGE_PROGRAM_ID →
    (l k).data = BridgeState.pod.encode st → st.coreState.configParams = zeroConfig

theorem config_of_zeros (h : ∀ b ∈ BridgeState.pod.encode st, b = 0) :
    st.coreState.configParams = zeroConfig := by
  have hencode : BridgeState.pod.encode st = List.replicate BridgeState.pod.size 0 :=
    List.eq_replicate_iff.mpr ⟨Pod.encode_length _ _, h⟩
  have hzero : (BridgeState.pod.decode
      (List.replicate BridgeState.pod.size 0)).coreState.configParams =
      zeroConfig := by decide +kernel
  rw [← hzero, ← hencode, Pod.decode_encode]

theorem Untouched.unconfigured (h : Untouched ofBridge l l') (hl : Unconfigured env l) :
    Unconfigured env l' := by
  intro k st hk ho hd
  by_cases hown : (l k).owner = DOGE_BRIDGE_PROGRAM_ID
  · rw [h.kept k hown] at hd
    exact hl k st hk hown hd
  · exact config_of_zeros (hd ▸ h.fresh k ho hown)

theorem Rewrites.unconfigured {k : Pubkey} (h : Rewrites inv l l' k st st')
    (hsame : k ≠ BridgeEnv.pda env → st'.coreState.configParams = st.coreState.configParams)
    (hl : Unconfigured env l) : Unconfigured env l' := by
  refine Untouched.unconfigured h.rest ?_
  intro k' st₂ hk' ho hd
  rw [setData_owner] at ho
  by_cases hne : k' = k
  · subst hne
    rw [setData_self] at hd
    have hst : st' = st₂ := BridgeState.pod.encode_injective hd
    rw [← hst, hsame hk']
    exact hl k' st hk' ho h.read
  · rw [setData_of_ne hne] at hd
    exact hl k' st₂ hk' ho hd

theorem Step.unconfigured (hg : Guarded env.platform) (h : Step env l e l')
    (hl : Unconfigured env l) : Unconfigured env l' := by
  cases h with
  | @bridge inv _ ix _ _ _ program decoded ran =>
    obtain ⟨-, -, -, ha⟩ := Step.accepted (.bridge program decoded ran)
    cases Accepted.effected hg program ha with
    | found hacc hstep hrw =>
      refine Rewrites.unconfigured hrw ?_ hl
      intro hk
      refine (StateStep.sameSetup hstep ?_).config
      -- INITIALIZE would be on the address of the bridge.
      intro params hix
      subst hix
      obtain ⟨a, rest, hacc', hpda⟩ := Accepted.initialize_first ha
      rw [hacc'] at hacc
      cases hacc
      rw [program] at hpda
      exact hk hpda.symm
    | created _ _ hrw =>
      refine Rewrites.unconfigured hrw (fun hk => absurd rfl hk) ?_
      intro k st hk ho hd
      have hk' : k ≠ env.bridgePda DOGE_BRIDGE_PROGRAM_ID := hk
      rw [Function.update_of_ne hk'] at ho hd
      exact hl k st hk ho hd
  | buffer program _ ran =>
    obtain ⟨_, _, -, he⟩ := BufferSteps.processInstruction_effect ran
    exact Untouched.unconfigured (bufferEffect_untouched program he) hl
  | other rest => exact Untouched.unconfigured (rest.weaken fun _ => .inl) hl

structure Receipt where
  leaf : PsyWithdrawalRequest
  fee : UInt64

structure Splits (request : PsyWithdrawalRequest) (receipt : Receipt) : Prop where
  addressType : receipt.leaf.addressType = request.addressType
  address : receipt.leaf.recipientAddress = request.recipientAddress
  amount : request.amountSats.toNat = receipt.leaf.amountSats.toNat + receipt.fee.toNat

def BurnsExactly (p : Platform) : Prop :=
  ∀ l source mint authority (amount : UInt64) l',
    p.foreign TOKEN_PROGRAM_ID l [source, mint, authority] (8 :: Pod.u64.encode amount) = some l' →
    (l mint.key).owner = TOKEN_PROGRAM_ID ∧
      SplToken.supply (l mint.key) = SplToken.supply (l' mint.key) + amount.toNat

structure RecordedBy (c : Crypto) (st st' : BridgeState) (receipt : Receipt) : Prop where
  mint : st'.dogeMint = st.dogeMint
  tree : st'.coreState.requestedWithdrawalsTree =
    st.coreState.requestedWithdrawalsTree.append c receipt.leaf.toLeaf
  fees : st'.coreState.totalWithdrawalFeesSats = st.coreState.totalWithdrawalFeesSats + receipt.fee

theorem recorded_of_request {c : Crypto} {request : PsyWithdrawalRequest}
    {core : PsyBridgeProgramState}
    (h : st.coreState.processRequestWithdrawal c request.addressType request.recipientAddress
      request.amountSats = some core) :
    ∃ receipt, Splits request receipt ∧ RecordedBy c st { st with coreState := core } receipt ∧
      core ≠ st.coreState ∧ st.coreState.configParams ≠ zeroConfig := by
  obtain ⟨r, hfee, -, hafter, rfl⟩ := PsyBridgeProgramState.processRequestWithdrawal_some.mp h
  have hsum := calcuateFee_add hfee
  refine ⟨⟨⟨r.amountAfterFees, request.addressType, request.recipientAddress⟩, r.feesGenerated⟩,
    ⟨rfl, rfl, hsum.symm⟩, ⟨rfl, rfl, rfl⟩, ?_, ?_⟩
  · intro hcore
    have htotal := congrArg PsyBridgeProgramState.totalRequestedWithdrawalsSats hcore
    have hzero : request.amountSats = 0 := by
      have : st.coreState.totalRequestedWithdrawalsSats + request.amountSats =
        st.coreState.totalRequestedWithdrawalsSats + 0 := by rw [UInt64.add_zero]; exact htotal
      exact UInt64.add_right_inj _ |>.mp this
    apply hafter
    rw [hzero] at hsum
    have : r.amountAfterFees.toNat = 0 := by
      have h0 : (0 : UInt64).toNat = 0 := rfl
      omega
    exact UInt64.toNat_inj.mp this
  · intro hconfig
    apply calcuateFee_den hfee
    rw [hconfig]
    rfl

theorem request_recorded {request : PsyWithdrawalRequest} {effects : List Effect}
    (hg : Guarded env.platform) (hb : BurnsExactly env.platform) (hl : Unconfigured env l)
    (hs : Holds env l st) (hp : inv.programId = DOGE_BRIDGE_PROGRAM_ID)
    (h : Accepted env inv l (.requestWithdrawal request) l' effects) :
    ∃ mint receipt st', inv.accounts[2]? = some mint ∧ Holds env l' st' ∧ Splits request receipt ∧
      RecordedBy env.crypto st st' receipt ∧ SplToken.supply (l mint.key) =
        SplToken.supply (l' mint.key) + request.amountSats.toNat := by
  cases h with
  | @requestWithdrawal _ bridgeState _ dogeMint _ _ _ st₀ core l₁ _ accounts read run write burn =>
    obtain ⟨receipt, hsplit, hrec, hchanged, hconfig⟩ := recorded_of_request run
    have hrw := rewrites_of_writeState hp read write (callee_untouched hg burn.2.2.2)
    obtain ⟨howner, rfl⟩ := writeState_ok.mp write
    rw [hp] at howner
    have hown : (l bridgeState.key).owner = DOGE_BRIDGE_PROGRAM_ID := by
      rcases howner with hsame | ⟨hown, -⟩
      · rw [read, Pod.encode_inj] at hsame
        exact absurd (congrArg BridgeProgramStateWithDogeMint.coreState hsame).symm hchanged
      · exact hown
    have hpda : bridgeState.key = BridgeEnv.pda env := by
      by_contra hne
      exact hconfig (hl _ _ hne hown read)
    rcases Rewrites.holds hrw hs with ⟨-, rfl, hs'⟩ | ⟨hne, -⟩
    · have hcall := burn.2.2.2
      rw [callee_token hp rfl] at hcall
      obtain ⟨htoken, hsupply⟩ := hb _ _ _ _ _ _ hcall
      have hmint : dogeMint.key ≠ bridgeState.key := by
        intro heq
        rw [setData_owner, heq, hown] at htoken
        exact token_ne_bridge htoken.symm
      have hbefore : l.setData bridgeState.key
          (BridgeState.pod.encode { st₀ with coreState := core })
          dogeMint.key = l dogeMint.key := setData_of_ne hmint
      refine ⟨dogeMint, receipt, _, by rw [accounts]; rfl, hs', hsplit, hrec, ?_⟩
      rw [← hbefore]
      exact hsupply
    · exact absurd hpda hne

def requestOf : Event → Option PsyWithdrawalRequest
  | .bridge { ix := .requestWithdrawal request, .. } => some request
  | _ => none

def requests (es : List Event) : List PsyWithdrawalRequest := es.filterMap requestOf

def burnedBy (mint : Pubkey) : Event → ℤ
  | .bridge { ix := .requestWithdrawal _, before := l, after := l', .. } =>
    SplToken.supply (l mint) - SplToken.supply (l' mint)
  | _ => 0

def namesMint (mint : Pubkey) : Event → Prop
  | .bridge { inv := inv, ix := .requestWithdrawal _, .. } =>
    ∃ a, inv.accounts[2]? = some a ∧ a.key = mint
  | _ => True

variable {mint : Pubkey} {receipts : List Receipt}

theorem requestOf_some {request : PsyWithdrawalRequest} (h : requestOf e = some request) :
    ∃ inv effects l l', e = .bridge ⟨inv, .requestWithdrawal request, effects, l, l'⟩ := by
  unfold requestOf at h
  split at h
  · cases h
    exact ⟨_, _, _, _, rfl⟩
  · cases h

theorem burnedBy_of_none (h : requestOf e = none) : burnedBy mint e = 0 := by
  unfold burnedBy
  split
  · cases h
  · rfl

theorem StateStep.requests_kept {ix : BridgeInstruction} (h : StateStep env ix st st')
    (hreq : ∀ request, ix ≠ .requestWithdrawal request)
    (hinit : ∀ params, ix ≠ .initializeBridge params) :
    st'.coreState.requestedWithdrawalsTree = st.coreState.requestedWithdrawalsTree ∧
      st'.coreState.totalWithdrawalFeesSats = st.coreState.totalWithdrawalFeesSats := by
  cases StateStep.update h with
  | initializeBridge params => exact absurd rfl (hinit params)
  | requestWithdrawal => exact absurd rfl (hreq _)
  | _ => exact ⟨rfl, rfl⟩

/-- The books after a run: a receipt for each request, all of them in the tree, and all of the
requested amount burned. -/
structure Accounted (env : BridgeEnv) (mint : Pubkey) (es : List Event) (st : BridgeState)
    (receipts : List Receipt) : Prop where
  stored : st.dogeMint = mint
  each : List.Forall₂ Splits (requests es) receipts
  tree : st.coreState.requestedWithdrawalsTree =
    receipts.foldl (fun tree receipt => tree.append env.crypto receipt.leaf.toLeaf) .newEmpty
  fees : st.coreState.totalWithdrawalFeesSats = (receipts.map Receipt.fee).sum
  burned : ((requests es).map fun request => (request.amountSats.toNat : ℤ)).sum =
    (es.map (burnedBy mint)).sum

theorem Accounted.quiet (h : Accounted env mint es st receipts) (he : requestOf e = none)
    (hm : st'.dogeMint = st.dogeMint)
    (ht : st'.coreState.requestedWithdrawalsTree = st.coreState.requestedWithdrawalsTree)
    (hf : st'.coreState.totalWithdrawalFeesSats = st.coreState.totalWithdrawalFeesSats) :
    Accounted env mint (es ++ [e]) st' receipts := by
  have hreq : requests (es ++ [e]) = requests es := by
    rw [requests, List.filterMap_append, List.filterMap_cons_none he, List.filterMap_nil,
      List.append_nil, requests]
  refine ⟨hm.trans h.stored, hreq ▸ h.each, ht.trans h.tree, hf.trans h.fees, ?_⟩
  rw [hreq, List.map_append, List.sum_append, List.map_singleton, List.sum_singleton,
    burnedBy_of_none he, add_zero]
  exact h.burned

theorem Accounted.request {receipt : Receipt} {request : PsyWithdrawalRequest}
    (h : Accounted env mint es st receipts)
    (he : requestOf e = some request) (hsplit : Splits request receipt)
    (hrec : RecordedBy env.crypto st st' receipt)
    (hburned : burnedBy mint e = request.amountSats.toNat) :
    Accounted env mint (es ++ [e]) st' (receipts ++ [receipt]) := by
  have hreq : requests (es ++ [e]) = requests es ++ [request] := by
    rw [requests, List.filterMap_append, List.filterMap_cons_some he, List.filterMap_nil, requests]
  refine ⟨hrec.mint.trans h.stored, ?_, ?_, ?_, ?_⟩
  · rw [hreq]
    exact List.rel_append h.each (.cons hsplit .nil)
  · rw [hrec.tree, h.tree, List.foldl_append]
    rfl
  · rw [hrec.fees, h.fees, List.map_append, List.sum_append, List.map_singleton,
      List.sum_singleton]
  · rw [hreq, List.map_append, List.map_append, List.sum_append, List.sum_append, h.burned,
      List.map_singleton, List.map_singleton, List.sum_singleton, List.sum_singleton, hburned]

theorem Step.accounted (hg : Guarded env.platform)
    (hb : BurnsExactly env.platform) (h : Step env l e l') (hinit : ¬ isInitialize e)
    (hnames : namesMint mint e) (hl : Unconfigured env l) (hs : Holds env l st)
    (ha : Accounted env mint es st receipts) :
    ∃ st' receipts', Holds env l' st' ∧ Accounted env mint (es ++ [e]) st' receipts' := by
  cases he : requestOf e with
  | none =>
    obtain ⟨st', hs', rfl | ⟨call, rfl, -, hstep⟩⟩ := h.holds hg hs
    · exact ⟨st', receipts, hs', ha.quiet he rfl rfl rfl⟩
    · have hix : ∀ params, call.ix ≠ .initializeBridge params := by
        intro params hix
        cases call
        cases hix
        exact hinit trivial
      have hreq : ∀ request, call.ix ≠ .requestWithdrawal request := by
        intro request hix
        cases call
        cases hix
        cases he
      obtain ⟨ht, hf⟩ := StateStep.requests_kept hstep hreq hix
      exact ⟨st', receipts, hs', ha.quiet he (StateStep.sameSetup hstep hix).mint ht hf⟩
  | some request =>
    obtain ⟨inv, effects, l₀, l₀', rfl⟩ := requestOf_some he
    obtain ⟨rfl, rfl, hp, hacc⟩ := h.accepted
    obtain ⟨a, receipt, st', hthird, hs', hsplit, hrec, hsupply⟩ :=
      request_recorded hg hb hl hs hp hacc
    obtain ⟨a', hthird', rfl⟩ := hnames
    rw [hthird] at hthird'
    cases hthird'
    refine ⟨st', _, hs', ha.request he hsplit hrec ?_⟩
    change (SplToken.supply (l₀ a.key) : ℤ) - SplToken.supply (l₀' a.key) = request.amountSats.toNat
    dsimp only at hsupply
    omega

theorem sum_splits {rs : List PsyWithdrawalRequest} (h : List.Forall₂ Splits rs receipts) :
    (rs.map fun request => request.amountSats.toNat).sum =
      (receipts.map fun receipt => receipt.leaf.amountSats.toNat + receipt.fee.toNat).sum := by
  induction h with
  | nil => rfl
  | cons hsplit _ ih =>
    rw [List.map_cons, List.map_cons, List.sum_cons, List.sum_cons, ih, hsplit.amount]

/-- After the one INITIALIZE, in a run whose withdrawal requests all name the stored mint, the
requested amount is what was burned of that mint, and what the leaves and the fees add up to. -/
theorem requests_burned_and_recorded {call : BridgeCall} {params : InitializeBridgeInstructionData}
    {l₀ l₁ l₂ l₃ : Ledger} {es₀ es : List Event} (hg : Guarded env.platform)
    (hb : BurnsExactly env.platform)
    (genesis : ∀ k, (l₀ k).owner = DOGE_BRIDGE_PROGRAM_ID → ∀ b ∈ (l₀ k).data, b = 0)
    (before : Run (Step env) l₀ es₀ l₁) (init : Step env l₁ (.bridge call) l₂)
    (isInit : call.ix = .initializeBridge params) (first : (l₁ (BridgeEnv.pda env)).data = [])
    (r : Run (Step env) l₂ es l₃) (once : ∀ e ∈ es, ¬ isInitialize e)
    (names : ∀ e ∈ es, namesMint params.dogeMint e) :
    ∃ st receipts, Holds env l₃ st ∧ st.dogeMint = params.dogeMint ∧
      List.Forall₂ Splits (requests es) receipts ∧
      st.coreState.requestedWithdrawalsTree = receipts.foldl
        (fun tree receipt => tree.append env.crypto receipt.leaf.toLeaf) .newEmpty ∧
      st.coreState.totalWithdrawalFeesSats = (receipts.map Receipt.fee).sum ∧
      (((requests es).map fun request => request.amountSats.toNat).sum : ℤ) =
        (es.map (burnedBy params.dogeMint)).sum ∧
      ((requests es).map fun request => request.amountSats.toNat).sum =
        (receipts.map fun receipt => receipt.leaf.amountSats.toNat + receipt.fee.toNat).sum := by
  have hl₀ : Unconfigured env l₀ := fun k st _ ho hd => config_of_zeros (hd ▸ genesis k ho)
  have hl₂ : Unconfigured env l₂ :=
    Step.unconfigured hg init
      (before.invariant (fun _ _ _ h hstep => Step.unconfigured hg hstep h) hl₀)
  have hbase : Accounted env params.dogeMint []
      ⟨PsyBridgeProgramState.initialized params, params.dogeMint⟩ [] :=
    ⟨rfl, .nil, rfl, rfl, rfl⟩
  have hrun := (r.restrict fun e he => And.intro (once e he) (names e he)).history
    (P := fun _ es l => Unconfigured env l ∧
      ∃ st receipts, Holds env l st ∧ Accounted env params.dogeMint es st receipts)
    ⟨hl₂, _, _, init.initialized hg isInit first, hbase⟩
    (fun es t e u _ ⟨hl, st, receipts, hs, ha⟩ ⟨hstep, hinit, hnames⟩ =>
      ⟨Step.unconfigured hg hstep hl, Step.accounted hg hb hstep hinit hnames hl hs ha⟩)
  obtain ⟨-, st, receipts, hs, ha⟩ := hrun
  refine ⟨st, receipts, hs, ha.stored, ha.each, ha.tree, ha.fees, ?_, sum_splits ha.each⟩
  rw [← ha.burned]

theorem cluster_burnsExactly : BurnsExactly cluster.platform := by
  intro l source mint authority amount l' h
  rw [cluster_burn] at h
  obtain ⟨howner, hsupply⟩ := SplToken.burn_supply h
  exact ⟨howner, hsupply.symm⟩

theorem tokenLedger_owner (k : Pubkey) :
    (tokenLedger mint k).owner ≠ DOGE_BRIDGE_PROGRAM_ID := by
  have hsystem : SYSTEM_PROGRAM_ID ≠ DOGE_BRIDGE_PROGRAM_ID := by decide
  unfold tokenLedger
  simp only [Function.update_apply]
  split_ifs
  · exact token_ne_bridge
  · exact token_ne_bridge
  · exact token_ne_bridge
  · exact hsystem

/-- A stranger burns worthless tokens of their own mint, and the bridge records a withdrawal for
which nothing of its mint was burned. -/
theorem request_burns_own_mint :
    ∃ es₁ es₂ l₁ l₂,
      Step cluster (tokenLedger strangerMint)
        (.bridge (genesisCall es₁ (tokenLedger strangerMint) l₁)) l₁ ∧
      Step cluster l₁ (.bridge (requestCall strangerMint es₂ l₁ l₂)) l₂ ∧
      SplToken.supply (l₁ (genesisParams operatorKey 10).dogeMint) =
        SplToken.supply (l₂ (genesisParams operatorKey 10).dogeMint) ∧
      0 < sampleRequest.amountSats := by
  obtain ⟨es₁, l₁, h₁, hl₁⟩ := genesis_step (tokenLedger_unused _)
  obtain ⟨core, hrun, -⟩ := genesis_requested
  obtain ⟨es₂, l₂, h₂, -, hkept⟩ := cluster_request (.inr rfl) (hl₁ ▸ install_holds _ _ _)
    (hl₁ ▸ cluster_install_of_ne (by decide)) (hl₁ ▸ cluster_install_of_ne (by decide)) hrun
  refine ⟨es₁, es₂, l₁, l₂, h₁, h₂, ?_, by decide⟩
  change SplToken.supply (l₁ mintKey) = SplToken.supply (l₂ mintKey)
  rw [hkept mintKey (by decide) (by decide) (by decide)]

/-- The same request with tokens of the mint of the bridge. -/
theorem request_burns_stored_mint :
    ∃ es₁ es₂ l₁ l₂,
      Step cluster (tokenLedger mintKey) (.bridge (genesisCall es₁ (tokenLedger mintKey) l₁)) l₁ ∧
      Step cluster l₁ (.bridge (requestCall mintKey es₂ l₁ l₂)) l₂ ∧
      ∃ st receipts, Holds cluster l₂ st ∧ List.Forall₂ Splits [sampleRequest] receipts ∧
        SplToken.supply (l₁ mintKey) = SplToken.supply (l₂ mintKey) + 1000 ∧
        (receipts.map fun receipt => receipt.leaf.amountSats.toNat + receipt.fee.toNat).sum =
          1000 := by
  obtain ⟨es₁, l₁, h₁, hl₁⟩ := genesis_step (tokenLedger_unused _)
  obtain ⟨core, hrun, -⟩ := genesis_requested
  obtain ⟨es₂, l₂, h₂, -⟩ := cluster_request (.inl rfl) (hl₁ ▸ install_holds _ _ _)
    (hl₁ ▸ cluster_install_of_ne (by decide)) (hl₁ ▸ cluster_install_of_ne (by decide)) hrun
  have hgenesis : ∀ k, (tokenLedger mintKey k).owner = DOGE_BRIDGE_PROGRAM_ID →
      ∀ b ∈ (tokenLedger mintKey k).data, b = 0 := by
    intro k hk
    exact absurd hk (tokenLedger_owner k)
  obtain ⟨st, receipts, hs, -, heach, -, -, hburn, hsum⟩ := requests_burned_and_recorded
    cluster_guarded cluster_burnsExactly hgenesis (.nil _) h₁ rfl
      (congrArg Account.data (tokenLedger_unused mintKey))
    (.single h₂) (by rw [List.forall_mem_singleton]; exact id)
    (by rw [List.forall_mem_singleton]; exact ⟨_, rfl, rfl⟩)
  refine ⟨es₁, es₂, l₁, l₂, h₁, h₂, st, receipts, hs, heach, ?_, hsum.symm⟩
  change (1000 : ℤ) + 0 = SplToken.supply (l₁ mintKey) - SplToken.supply (l₂ mintKey) + 0 at hburn
  omega

end WithdrawalAccounting
