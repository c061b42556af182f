import PsyDogeBridge.StateHistory

/-! Which programs receive the signature of the bridge's address, which is also the authority of
the token mint. -/
namespace SignedCalls

open PodLayout CheckedSteps SolanaRuntime BridgeData MintGroups ProgramState BlockTransition
  BridgeCalls BridgeProcessor AcceptedInstructions BridgeSystem InstructionCodec LocalCluster
  StateHistory

variable {env : BridgeEnv} {inv : Invocation} {l l' : Ledger} {es : List Effect}
  {ix : BridgeInstruction}

def fixedPrograms : List Pubkey :=
  [TOKEN_PROGRAM_ID, PENDING_MINT_BUFFER_BUILDER_PROGRAM_ID, SYSTEM_PROGRAM_ID,
    NOOP_SHIM_PROGRAM_ID]

def servicePrograms : List Pubkey :=
  [TOKEN_PROGRAM_ID, PENDING_MINT_BUFFER_BUILDER_PROGRAM_ID, SYSTEM_PROGRAM_ID]

theorem token_service : TOKEN_PROGRAM_ID ∈ servicePrograms := List.mem_cons_self

theorem system_service : SYSTEM_PROGRAM_ID ∈ servicePrograms :=
  List.mem_cons_of_mem _ (List.mem_cons_of_mem _ List.mem_cons_self)

def postsMessage : BridgeInstruction → Prop
  | .processWithdrawal _ => True
  | .replayWithdrawal => True
  | _ => False

theorem locker_effects {tag : UInt8} {flag : Bool} {buffer authority : AccountInfo}
    {r : Ledger × List Effect}
    (h : CalledIf env inv flag .none (lockerCall env inv tag buffer authority) l r) :
    ∀ e ∈ r.2, e.cpi.programId ∈ servicePrograms := by
  intro e he
  rw [calledIf_effects h e he]
  exact List.mem_cons_of_mem _ List.mem_cons_self

theorem groupMinted_effects {bridgeState mintBuffer dogeMint : AccountInfo}
    {recipients : List AccountInfo} {claim : GroupClaim} {lockFirst shouldUnlock : Bool}
    (h : GroupMinted env inv l bridgeState mintBuffer dogeMint recipients claim lockFirst
      shouldUnlock l' es) : ∀ e ∈ es, e.cpi.programId ∈ servicePrograms := by
  obtain ⟨-, hl, hm, -, hu⟩ := h
  intro e he
  rcases List.mem_append.mp he with he | he
  · rcases List.mem_append.mp he with he | he
    · exact locker_effects hl e he
    · obtain ⟨recipient, amount, hcall⟩ := (mintRecords_effects hm).2 e he
      rw [hcall]
      exact token_service
  · exact locker_effects hu e he

theorem blockUpdated_effects {fixed : BlockUpdateFixedData}
    {extra : List FinalizedBlockMintTxoInfo} {mintBump txoBump : UInt8} {isReorg : Bool}
    (h : BlockUpdated env inv l fixed extra mintBump txoBump isReorg l' es) :
    ∀ e ∈ es, e.cpi.programId ∈ servicePrograms := by
  obtain ⟨-, -, -, -, -, hl, -, -, -, -, -, hu⟩ := h
  intro e he
  rcases List.mem_append.mp he with he | he
  · exact locker_effects hl e he
  · exact locker_effects hu e he

theorem createIfEmpty_effects {bridgeState payer : AccountInfo}
    (h : createIfEmpty env inv l bridgeState payer = .ok (l', es)) :
    ∀ e ∈ es, e.cpi.programId ∈ servicePrograms := by
  unfold createIfEmpty at h
  split at h
  · simp only [bind_ok, ensure_ok, exists_const, pure_ok, Prod.mk.injEq] at h
    obtain ⟨-, -, -, -, rfl⟩ := h
    intro e he
    rw [List.mem_singleton.mp he]
    exact system_service
  · cases h
    simp

/-- Every instruction that posts no message calls only the service programs. -/
theorem Accepted.quiet (h : Accepted env inv l ix l' es) (hix : ¬ postsMessage ix) :
    ∀ e ∈ es, e.cpi.programId ∈ servicePrograms := by
  cases h with
  | initializeBridge _ _ create _ _ => exact createIfEmpty_effects create
  | blockUpdate run => exact blockUpdated_effects run
  | processReorgBlocks run => exact blockUpdated_effects run
  | requestWithdrawal | operatorWithdrawFees | processManualDeposit =>
    intro e he
    rw [List.mem_singleton.mp he]
    exact token_service
  | processWithdrawal | replayWithdrawal => exact absurd trivial hix
  | processMintGroup _ _ _ _ _ _ _ _ _ minted => exact groupMinted_effects minted
  | processMintGroupAutoAdvance _ _ _ _ _ _ _ _ _ minted => exact groupMinted_effects minted
  | snapshotWithdrawals => simp

theorem posted_effects {b : Borrows} {c : Cpi} (h : Posted env inv b c l l' es) :
    ∀ e ∈ es, e = .call c := by
  obtain ⟨hw, hn⟩ := h
  intro e he
  rcases List.mem_append.mp he with he | he
  · exact calledIf_effects hw e he
  · exact calledIf_effects hn e he

theorem posted_nonempty {b : Borrows} {c : Cpi} (h : Posted env inv b c l l' es)
    (hf : env.features.wormhole = true ∨ env.features.noopshim = true) : es ≠ [] := by
  obtain @⟨_, _, first, second, hw, hn⟩ := h
  rcases hf with hf | hf
  · rw [hf] at hw
    have hfirst : first = [.call c] := hw.2
    simp [hfirst]
  · rw [hf] at hn
    have hsecond : second = [.call c] := hn.2
    simp [hsecond]

/-- An instruction that posts a message makes only this one call. The message is the rest of an
account after some header. -/
theorem Accepted.message (h : Accepted env inv l ix l' es) (hix : postsMessage ix) :
    ∃ n shim emitter sighash tx k l₁, inv.accounts[2]? = some shim.shimProgram ∧
      sighash.length = 32 ∧ tx.length + 32 ≤ (l k).data.length ∧
      Posted env inv ⟨[], [k]⟩ (vaaCall env inv n shim emitter sighash tx) l₁ l' es := by
  cases h with
  | processWithdrawal accounts _ _ _ _ long _ _ post =>
    obtain ⟨rest, ha⟩ := accounts
    refine ⟨_, _, _, _, _, _, _, by rw [ha]; rfl, Vector.length_toList, ?_, post⟩
    rw [List.length_drop]
    omega
  | replayWithdrawal accounts _ _ _ _ long _ _ _ _ _ post =>
    obtain ⟨rest, ha⟩ := accounts
    refine ⟨_, _, _, _, _, _, _, by rw [ha]; rfl, Vector.length_toList, ?_, post⟩
    rw [List.length_drop]
    omega
  | _ => exact hix.elim

theorem Accepted.posting (h : Accepted env inv l ix l' es) (hix : postsMessage ix)
    (hf : env.features.wormhole = true ∨ env.features.noopshim = true) :
    ∃ shim, inv.accounts[2]? = some shim ∧ es ≠ [] ∧
      ∀ e ∈ es, e.cpi.programId = shim.key ∧
        e.cpi.signer = some (env.bridgePda inv.programId) := by
  obtain ⟨n, shim, emitter, sighash, tx, _, _, hs, -, -, post⟩ := Accepted.message h hix
  refine ⟨shim.shimProgram, hs, posted_nonempty post hf, ?_⟩
  intro e he
  rw [posted_effects post e he]
  exact ⟨rfl, rfl⟩

/-- The signature goes only to fixed programs exactly if the shim program of an instruction that
posts a message is one of them. -/
theorem signed_targets_fixed_iff {data : Bytes}
    (hf : env.features.wormhole = true ∨ env.features.noopshim = true)
    (decoded : unpack data = .ok ix) (ran : processInstruction env inv l data = .ok (l', es)) :
    (∀ e ∈ es, e.cpi.signer = some (env.bridgePda inv.programId) →
      e.cpi.programId ∈ fixedPrograms) ↔
    (postsMessage ix → ∃ shim, inv.accounts[2]? = some shim ∧ shim.key ∈ fixedPrograms) := by
  obtain ⟨ix', hix', ha⟩ := processInstruction_ok.mp ran
  rw [decoded] at hix'
  cases hix'
  by_cases hix : postsMessage ix
  · obtain ⟨shim, hs, hne, hall⟩ := Accepted.posting ha hix hf
    constructor
    · intro h _
      obtain ⟨e, he⟩ := List.exists_mem_of_ne_nil es hne
      obtain ⟨hp, hsig⟩ := hall e he
      exact ⟨shim, hs, hp ▸ h e he hsig⟩
    · intro h e he _
      obtain ⟨shim', hs', hfix⟩ := h hix
      rw [hs] at hs'
      cases hs'
      rw [(hall e he).1]
      exact hfix
  · constructor
    · intro _ h
      exact absurd h hix
    · intro _ e he _
      exact List.mem_append_left _ (Accepted.quiet ha hix e he)

section Withdrawal

variable {st : BridgeState} {shim payer buffer : Pubkey} {tx : Bytes}

def withdrawalInvocation (env : BridgeEnv) (shim payer buffer : Pubkey) : Invocation where
  programId := DOGE_BRIDGE_PROGRAM_ID
  accounts := ⟨BridgeEnv.pda env, false, true⟩ :: ⟨buffer, false, false⟩ :: ⟨shim, false, false⟩ ::
    List.replicate 9 ⟨payer, true, true⟩
  unixTimestamp := 0
  fundsSuffice := true

theorem withdrawalInvocation_on (env : BridgeEnv) (shim payer buffer : Pubkey) :
    onAccount (withdrawalInvocation env shim payer buffer) (BridgeEnv.pda env) :=
  ⟨_, _, rfl, rfl⟩

def withdrawalData (env : BridgeEnv) (tx : Bytes) : ProcessWithdrawalInstructionData where
  proof := Vector.replicate 256 0
  newReturnOutput := ⟨env.crypto.sha256 tx, 0, 50⟩
  newSpentTxoTreeRoot := zeroBytes
  newNextProcessedWithdrawalsIndex := 1

def withdrawn (env : BridgeEnv) (st : BridgeState) (params : ProcessWithdrawalInstructionData) :
    BridgeState :=
  { st with
    coreState := st.coreState.updateForWithdrawal env.crypto params.newReturnOutput
      params.newSpentTxoTreeRoot params.newNextProcessedWithdrawalsIndex }

def shimArguments (shim payer : Pubkey) : ShimAccounts :=
  let other : AccountInfo := ⟨payer, true, true⟩
  ⟨⟨shim, false, false⟩, other, other, other, other, other, other, other, other, other⟩

/-- The accounts that the shim sees: the emitter is third and signs. -/
def shimMetas (env : BridgeEnv) (payer : Pubkey) : List AccountInfo :=
  [⟨payer, false, true⟩, ⟨payer, false, true⟩, ⟨BridgeEnv.pda env, true, false⟩,
    ⟨payer, false, true⟩, ⟨payer, true, true⟩, ⟨payer, false, true⟩, ⟨payer, false, false⟩,
    ⟨payer, false, false⟩, ⟨payer, false, false⟩, ⟨payer, false, false⟩]

theorem shimMetas_key {a : AccountInfo} (h : a ∈ shimMetas env payer) :
    a.key = payer ∨ a.key = BridgeEnv.pda env := by
  simp only [shimMetas, List.mem_cons, List.not_mem_nil, or_false] at h
  rcases h with rfl | rfl | rfl | rfl | rfl | rfl | rfl | rfl | rfl | rfl
  case inr.inr.inl => exact .inr rfl
  all_goals exact .inl rfl

theorem shimMetas_granted {c : Cpi}
    (hacc : inv.accounts = (withdrawalInvocation env shim payer buffer).accounts)
    (hc : c.signer = some (BridgeEnv.pda env)) : ∀ m ∈ shimMetas env payer, inv.grants c m := by
  have hpda : (⟨BridgeEnv.pda env, false, true⟩ : AccountInfo) ∈ inv.accounts := by
    rw [hacc]
    exact List.mem_cons_self
  have hpayer : (⟨payer, true, true⟩ : AccountInfo) ∈ inv.accounts := by
    rw [hacc]
    exact List.mem_cons_of_mem _
      (List.mem_cons_of_mem _ (List.mem_cons_of_mem _ List.mem_cons_self))
  have payerGranted (isSigner isWritable : Bool) : inv.grants c ⟨payer, isSigner, isWritable⟩ :=
    ⟨⟨_, hpayer, rfl⟩, fun _ => .inl ⟨_, hpayer, rfl, rfl⟩, fun _ => ⟨_, hpayer, rfl, rfl⟩⟩
  have pdaGranted : inv.grants c ⟨BridgeEnv.pda env, true, false⟩ :=
    ⟨⟨_, hpda, rfl⟩, fun _ => .inr hc, fun h => nomatch h⟩
  simp only [shimMetas, List.forall_mem_cons]
  exact ⟨payerGranted _ _, payerGranted _ _, pdaGranted, payerGranted _ _, payerGranted _ _,
    payerGranted _ _, payerGranted _ _, payerGranted _ _, payerGranted _ _, payerGranted _ _,
    nofun⟩

def LetsPass (env : BridgeEnv) (shim payer buffer : Pubkey) : Prop :=
  ∀ (c : Cpi) (m : Ledger), c.programId = shim → c.accounts = shimMetas env payer →
    callee env (withdrawalInvocation env shim payer buffer) c m = some m

theorem message_posted {c : Cpi}
    (hacc : inv.accounts = (withdrawalInvocation env shim payer buffer).accounts)
    (passes : callee env inv c l = some l)
    (hf : env.features.wormhole = false ∧ env.features.noopshim = true) (hpayer : payer ≠ buffer)
    (hne : BridgeEnv.pda env ≠ buffer) (hp : c.programId = shim)
    (ha : c.accounts = shimMetas env payer) (hs : c.signer = some (BridgeEnv.pda env)) :
    Posted env inv ⟨[], [buffer]⟩ c l l [.call c] := by
  have hpermit : ∀ m ∈ shimMetas env payer, (⟨[], [buffer]⟩ : Borrows).permit m := by
    simp [shimMetas, Borrows.permit, hpayer, hne]
  have hcalled : Called env inv ⟨[], [buffer]⟩ c l l := by
    refine ⟨fun _ => ha ▸ hpermit, ⟨⟨shim, false, false⟩, ?_, hp.symm⟩,
      ha ▸ shimMetas_granted hacc hs, passes⟩
    rw [hacc]
    exact List.mem_cons_of_mem _ (List.mem_cons_of_mem _ List.mem_cons_self)
  refine @Posted.intro _ _ _ _ _ l l [] [.call c] ?_ ?_
  · rw [hf.1]
    rfl
  · rw [hf.2]
    exact ⟨hcalled, rfl⟩

def announcement (env : BridgeEnv) (st : BridgeState) (shim payer buffer : Pubkey)
    (params : ProcessWithdrawalInstructionData) (tx : Bytes) : Cpi :=
  vaaCall env (withdrawalInvocation env shim payer buffer)
    (nonce (withdrawn env st params).coreState) (shimArguments shim payer)
    ⟨BridgeEnv.pda env, false, true⟩ params.newReturnOutput.sighash.toList tx

theorem announcement_accounts (env : BridgeEnv) (st : BridgeState) (shim payer buffer : Pubkey)
    (params : ProcessWithdrawalInstructionData) (tx : Bytes) :
    (announcement env st shim payer buffer params tx).accounts = shimMetas env payer := rfl

/-- A withdrawal that the verifier accepts is announced to whatever program is listed as the
shim, if that program lets the call pass. -/
theorem withdrawal_step (params : ProcessWithdrawalInstructionData)
    (hv : ∀ proof vk input, env.crypto.verifyCompactZkpSlice proof vk input = true)
    (hf : env.features.wormhole = false ∧ env.features.noopshim = true) (hs : Holds env l st)
    (hbuffer : l buffer = ⟨GENERIC_BUFFER_BUILDER_PROGRAM_ID, List.replicate 32 0 ++ tx⟩)
    (hparams : env.crypto.sha256 tx = params.newReturnOutput.sighash)
    (hpayer : payer ≠ buffer) (passes : LetsPass env shim payer buffer) :
    ∃ l', Step env l (.bridge ⟨withdrawalInvocation env shim payer buffer,
        .processWithdrawal params, [.call (announcement env st shim payer buffer params tx)], l,
        l'⟩) l' ∧ l' = install env l (withdrawn env st params) := by
  have hinstalled : _ = install env l (withdrawn env st params) := Holds.setData_eq_install hs
  unfold Holds at hs
  have howner : GENERIC_BUFFER_BUILDER_PROGRAM_ID ≠ DOGE_BRIDGE_PROGRAM_ID := by decide
  have hne : buffer ≠ BridgeEnv.pda env := by
    rintro rfl
    rw [hs] at hbuffer
    exact howner (congrArg Account.owner hbuffer).symm
  have hdrop : (l buffer).data.drop 32 = tx := by
    rw [hbuffer]
    exact List.drop_left' (List.length_replicate ..)
  have hlong : 32 ≤ (l buffer).data.length := by
    rw [hbuffer]
    simp
  have hrun : st.coreState.runProcessBridgeWithdrawal env.crypto params.proof.toList
      (WITHDRAWAL_VK env.features).toList ((l buffer).data.drop 32) params.newReturnOutput
      params.newSpentTxoTreeRoot params.newNextProcessedWithdrawalsIndex =
      .ok (_, params.newReturnOutput.sighash) :=
    PsyBridgeProgramState.runProcessBridgeWithdrawal_ok.mpr
      ⟨(congrArg env.crypto.sha256 hdrop).trans hparams, hv _ _ _, rfl, rfl⟩
  have hwrites : (withdrawalInvocation env shim payer buffer).writes (BridgeEnv.pda env) :=
    ⟨_, List.mem_cons_self, rfl, rfl⟩
  have hlisted : ShimListed (withdrawalInvocation env shim payer buffer).accounts
      ⟨BridgeEnv.pda env, false, true⟩ ⟨buffer, false, false⟩ (shimArguments shim payer) :=
    ⟨[], rfl⟩
  have hposted (m : Ledger) : Posted env (withdrawalInvocation env shim payer buffer)
      ⟨[], [buffer]⟩ (announcement env st shim payer buffer params ((l buffer).data.drop 32)) m m
      [.call (announcement env st shim payer buffer params tx)] := by
    rw [hdrop]
    exact message_posted rfl (passes _ _ rfl rfl) hf hpayer hne.symm rfl rfl rfl
  exact ⟨_, step_of_accepted rfl (.processWithdrawal hlisted rfl (congrArg Account.owner hbuffer)
    (congrArg Account.data hs) hne hlong hrun
    (writeState_ok.mpr ⟨.inr ⟨congrArg Account.owner hs, hwrites⟩, rfl⟩) (hposted _)),
    hinstalled⟩

def hostileCluster : BridgeEnv :=
  { cluster with
    platform := { platform with
      foreign := fun k l accounts data =>
        if k = strangerKey then some l else platform.foreign k l accounts data } }

def txBuffer : Pubkey := Vector.replicate 32 4

def withdrawalLedger (env : BridgeEnv) : Ledger :=
  Function.update
    (Function.update emptyLedger txBuffer
      ⟨GENERIC_BUFFER_BUILDER_PROGRAM_ID, List.replicate 32 0 ++ [1, 2, 3]⟩)
    (BridgeEnv.pda env) ⟨DOGE_BRIDGE_PROGRAM_ID,
      BridgeState.pod.encode (genesisState operatorKey 10)⟩

theorem withdrawalLedger_holds (env : BridgeEnv) :
    Holds env (withdrawalLedger env) (genesisState operatorKey 10) := Function.update_self ..

theorem withdrawalLedger_buffer (h : BridgeEnv.pda env = bridgeState) :
    withdrawalLedger env txBuffer =
      ⟨GENERIC_BUFFER_BUILDER_PROGRAM_ID, List.replicate 32 0 ++ [1, 2, 3]⟩ := by
  have hne : txBuffer ≠ BridgeEnv.pda env := by
    rw [h]
    decide
  rw [withdrawalLedger, Function.update_of_ne hne, Function.update_self]

theorem stranger_lets_pass : LetsPass hostileCluster strangerKey operatorKey txBuffer := by
  intro c m hp _
  have hbuffer : strangerKey ≠ PENDING_MINT_BUFFER_BUILDER_PROGRAM_ID := by decide
  have hshim : strangerKey ≠ NOOP_SHIM_PROGRAM_ID := by decide
  have hbridge : strangerKey ≠ DOGE_BRIDGE_PROGRAM_ID := by decide
  rw [callee, hp, if_neg hbuffer, if_neg hshim]
  rw [show (withdrawalInvocation hostileCluster strangerKey operatorKey txBuffer).programId =
    DOGE_BRIDGE_PROGRAM_ID from rfl, if_neg hbridge]
  unfold hostileCluster
  dsimp only
  exact if_pos rfl

theorem noopShim_accepts (env : BridgeEnv) (payer : Pubkey) :
    noopShim env.platform (shimMetas env payer) = .ok () := by
  simp only [noopShim, shimMetas, bind_ok, nextAccountInfo_ok, ensure_ok, exists_const,
    Prod.exists]
  exact ⟨_, _, rfl, _, _, rfl, _, _, rfl, _, _, rfl, _, _, rfl, rfl, rfl, rfl⟩

theorem noopShim_callee {c : Cpi} (hp : c.programId = NOOP_SHIM_PROGRAM_ID)
    (ha : c.accounts = shimMetas env payer) : callee env inv c l = some l := by
  have hbuffer : NOOP_SHIM_PROGRAM_ID ≠ PENDING_MINT_BUFFER_BUILDER_PROGRAM_ID := by decide
  rw [callee, hp, if_neg hbuffer, if_pos rfl, ha, noopShim_accepts]
  rfl

theorem cluster_withdrawal {params : ProcessWithdrawalInstructionData}
    (hunused : l (BridgeEnv.pda cluster) = ⟨SYSTEM_PROGRAM_ID, []⟩)
    (hbuffer : l txBuffer = ⟨GENERIC_BUFFER_BUILDER_PROGRAM_ID, List.replicate 32 0 ++ tx⟩)
    (hparams : crypto.sha256 tx = params.newReturnOutput.sighash) :
    ∃ es l₁ l₂ c, Step cluster l (.bridge (genesisCall es l l₁)) l₁ ∧
      Step cluster l₁ (.bridge ⟨withdrawalInvocation cluster NOOP_SHIM_PROGRAM_ID operatorKey
        txBuffer, .processWithdrawal params, [.call c], l₁, l₂⟩) l₂ ∧
      l₁ txBuffer = l txBuffer ∧
      l₂ = install cluster l (withdrawn cluster (genesisState operatorKey 10) params) := by
  have hne : txBuffer ≠ BridgeEnv.pda cluster := ne_pda (by decide)
  obtain ⟨es, l₁, h₁, hl₁⟩ := genesis_step hunused
  have hkept : l₁ txBuffer = l txBuffer := by rw [hl₁, install_of_ne hne]
  have hpass : LetsPass cluster NOOP_SHIM_PROGRAM_ID operatorKey txBuffer :=
    fun _ _ hp ha => noopShim_callee hp ha
  have hs₁ : Holds cluster l₁ (genesisState operatorKey 10) := by
    rw [hl₁]
    exact install_holds _ _ _
  obtain ⟨l₂, h₂, hl₂⟩ := withdrawal_step params (fun _ _ _ => rfl) ⟨rfl, rfl⟩ hs₁
    (hkept.trans hbuffer) hparams (by decide) hpass
  refine ⟨es, l₁, l₂, _, h₁, h₂, hkept, ?_⟩
  rw [hl₂, hl₁, install_install]

/-- The stranger's program gets the signature of the mint authority. -/
theorem stranger_receives_signature :
    ∃ l' c, processInstruction hostileCluster
        (withdrawalInvocation hostileCluster strangerKey operatorKey txBuffer)
        (withdrawalLedger hostileCluster)
        (instructionData (.processWithdrawal (withdrawalData hostileCluster [1, 2, 3]))) =
          .ok (l', [.call c]) ∧
      hostileCluster.features.noopshim = true ∧
      c.signer = some (BridgeEnv.pda hostileCluster) ∧ c.programId = strangerKey ∧
      strangerKey ∉ fixedPrograms := by
  obtain ⟨l', hstep, -⟩ := withdrawal_step (withdrawalData hostileCluster [1, 2, 3])
    (fun _ _ _ => rfl) ⟨rfl, rfl⟩ (withdrawalLedger_holds hostileCluster)
    (withdrawalLedger_buffer (congrArg Prod.fst bridgeState_derived)) rfl
    (by decide) stranger_lets_pass
  obtain ⟨-, -, -, ha⟩ := hstep.accepted
  exact ⟨l', _, processInstruction_ok.mpr ⟨_, unpack_instructionData _, ha⟩, rfl, rfl, rfl,
    by decide⟩

def announced : Cpi :=
  announcement cluster (genesisState operatorKey 10) NOOP_SHIM_PROGRAM_ID operatorKey txBuffer
    (withdrawalData cluster [1, 2, 3]) [1, 2, 3]

theorem announced_ran :
    ∃ l', processInstruction cluster
      (withdrawalInvocation cluster NOOP_SHIM_PROGRAM_ID operatorKey txBuffer)
      (withdrawalLedger cluster)
      (instructionData (.processWithdrawal (withdrawalData cluster [1, 2, 3]))) =
        .ok (l', [.call announced]) := by
  have hpass : LetsPass cluster NOOP_SHIM_PROGRAM_ID operatorKey txBuffer :=
    fun _ _ hp ha => noopShim_callee hp ha
  obtain ⟨l', hstep, -⟩ := withdrawal_step (withdrawalData cluster [1, 2, 3])
    (fun _ _ _ => rfl) ⟨rfl, rfl⟩ (withdrawalLedger_holds cluster)
    (withdrawalLedger_buffer cluster_pda) rfl (by decide) hpass
  obtain ⟨-, -, -, ha⟩ := hstep.accepted
  exact ⟨l', processInstruction_ok.mpr ⟨_, unpack_instructionData _, ha⟩⟩

/-- A withdrawal announced to the noop shim: the signature goes to a fixed program. -/
theorem noopShim_signed_fixed :
    ∃ l' es, processInstruction cluster
        (withdrawalInvocation cluster NOOP_SHIM_PROGRAM_ID operatorKey txBuffer)
        (withdrawalLedger cluster)
        (instructionData (.processWithdrawal (withdrawalData cluster [1, 2, 3]))) = .ok (l', es) ∧
      ∀ e ∈ es, e.cpi.signer = some (BridgeEnv.pda cluster) → e.cpi.programId ∈ fixedPrograms := by
  obtain ⟨l', hran⟩ := announced_ran
  refine ⟨l', _, hran, ?_⟩
  exact (signed_targets_fixed_iff (.inr rfl) (unpack_instructionData _) hran).mpr
    fun _ => ⟨_, rfl, by decide⟩

end Withdrawal

end SignedCalls
