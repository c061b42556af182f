import PsyDogeBridge.ManualClaim
import PsyDogeBridge.StateHistory

/-! The instruction with which a user claims a deposit, as the two clients build it. -/
namespace ManualClaimClient

open PodLayout CheckedSteps SolanaRuntime BridgeData ProgramState BridgeCalls BridgeProcessor
  AcceptedInstructions BridgeSystem InstructionCodec LocalCluster StateHistory ManualClaim

structure Instruction where
  programId : Pubkey
  accounts : List AccountInfo
  data : Bytes

def Instruction.invocation (i : Instruction) (now : ℤ) : Invocation :=
  ⟨i.programId, i.accounts, now, true⟩

abbrev MC_MANUAL_CLAIM_TRANSACTION_DESCRIMINATOR : UInt8 := 0

def manualClaimDepositInstruction (p : Platform) (programId bridgeProgramId userSigner payer mint
    recipient : Pubkey) (ix : ManualClaimInstruction) : Instruction where
  programId := programId
  accounts :=
    [⟨(p.findProgramAddress [MANUAL_CLAIM_SEED, userSigner.toList] programId).1, false, true⟩,
      ⟨(p.findProgramAddress [BRIDGE_STATE_SEED] bridgeProgramId).1, false, false⟩,
      ⟨recipient, false, true⟩, ⟨mint, false, true⟩, ⟨TOKEN_PROGRAM_ID, false, false⟩,
      ⟨bridgeProgramId, false, false⟩, ⟨userSigner, true, false⟩, ⟨payer, true, true⟩,
      ⟨SYSTEM_PROGRAM_ID, false, false⟩]
  data := genAlignedInstruction MC_MANUAL_CLAIM_TRANSACTION_DESCRIMINATOR
    (ManualClaimInstruction.pod.encode ix)

structure ManualClaimClientConfig where
  manualClaimProgramId : Pubkey
  bridgeProgramId : Pubkey
  bridgeStatePda : Pubkey

def ManualClaimClientConfig.build (p : Platform) (rpcUrl : Option String)
    (manualClaimProgramId bridgeProgramId bridgeStatePda : Option Pubkey) :
    Except String ManualClaimClientConfig := do
  let _ ← orFail rpcUrl "RPC URL is required"
  let bridgeProgramId := bridgeProgramId.getD DOGE_BRIDGE_PROGRAM_ID
  pure ⟨manualClaimProgramId.getD MANUAL_CLAIM_PROGRAM_ID, bridgeProgramId,
    bridgeStatePda.getD (p.findProgramAddress [BRIDGE_STATE_SEED] bridgeProgramId).1⟩

def deriveClaimPda (p : Platform) (config : ManualClaimClientConfig) (user : Pubkey) :
    Pubkey × UInt8 :=
  p.findProgramAddress [MANUAL_CLAIM_SEED, user.toList] config.manualClaimProgramId

def buildManualClaimInstruction (config : ManualClaimClientConfig)
    (user payer claimPda recipientAta dogeMint : Pubkey) (ix : ManualClaimInstruction) :
    Instruction where
  programId := config.manualClaimProgramId
  accounts :=
    [⟨claimPda, false, true⟩, ⟨config.bridgeStatePda, false, false⟩, ⟨recipientAta, false, true⟩,
      ⟨dogeMint, false, true⟩, ⟨TOKEN_PROGRAM_ID, false, false⟩,
      ⟨config.bridgeProgramId, false, false⟩, ⟨user, true, false⟩, ⟨payer, true, true⟩,
      ⟨SYSTEM_PROGRAM_ID, false, false⟩]
  data := genAlignedInstruction MC_MANUAL_CLAIM_TRANSACTION_DESCRIMINATOR
    (ManualClaimInstruction.pod.encode ix)

def submittedInstruction (p : Platform) (config : ManualClaimClientConfig)
    (user payer dogeMint : Pubkey) (ix : ManualClaimInstruction) : Instruction :=
  buildManualClaimInstruction config user payer (deriveClaimPda p config user).1
    (getAssociatedTokenAddress p user dogeMint) dogeMint ix

section Instructions

variable (p : Platform) (user payer mint : Pubkey) (ix : ManualClaimInstruction)

def claimInstruction : Instruction :=
  manualClaimDepositInstruction p MANUAL_CLAIM_PROGRAM_ID DOGE_BRIDGE_PROGRAM_ID user payer mint
    (getAssociatedTokenAddress p user mint) ix

inductive BuiltByClient : Instruction → Prop where
  | operator : BuiltByClient (claimInstruction p user payer mint ix)
  | user {url : Option String} {config : ManualClaimClientConfig}
      (defaults : ManualClaimClientConfig.build p url none none none = .ok config) :
      BuiltByClient (submittedInstruction p config user payer mint ix)

theorem claimInstruction_read : 8 ≤ (claimInstruction p user payer mint ix).data.length ∧
    (claimInstruction p user payer mint ix).data.drop 8 =
      ManualClaimInstruction.pod.encode ix := by
  constructor
  · simp [claimInstruction, manualClaimDepositInstruction, genAlignedInstruction]
  · rfl

variable {p user payer mint ix}

theorem BuiltByClient.eq {i : Instruction} (h : BuiltByClient p user payer mint ix i) :
    i = claimInstruction p user payer mint ix := by
  cases h with
  | operator => rfl
  | user defaults =>
    simp only [ManualClaimClientConfig.build, bind_ok, orFail_ok, pure_ok] at defaults
    obtain ⟨-, -, rfl⟩ := defaults
    rfl

end Instructions

section Claims

variable (env : BridgeEnv) (l : Ledger) (i : Instruction) (user payer mint : Pubkey)
  (ix : ManualClaimInstruction) (now : ℤ)

def claimInvocation : Invocation :=
  (claimInstruction env.platform user payer mint ix).invocation now

def claimKey : Pubkey :=
  (env.platform.findProgramAddress [MANUAL_CLAIM_SEED, user.toList] MANUAL_CLAIM_PROGRAM_ID).1

def claimAccounts : ClaimAccounts where
  claimState := ⟨claimKey env user, false, true⟩
  bridgeState := ⟨BridgeEnv.pda env, false, false⟩
  recipient := ⟨getAssociatedTokenAddress env.platform user mint, false, true⟩
  dogeMint := ⟨mint, false, true⟩
  tokenProgram := ⟨TOKEN_PROGRAM_ID, false, false⟩
  mainBridgeProgram := ⟨DOGE_BRIDGE_PROGRAM_ID, false, false⟩
  user := ⟨user, true, false⟩
  payer := ⟨payer, true, true⟩
  systemProgram := ⟨SYSTEM_PROGRAM_ID, false, false⟩

def depositCall : Cpi :=
  manualDepositCall env (claimInvocation env user payer mint ix now)
    (claimAccounts env user payer mint) (ix.deposit user)

def depositInvocation : Invocation :=
  calledInvocation (claimInvocation env user payer mint ix now)
    (depositCall env user payer mint ix now)

def depositMint (amount : UInt64) : Cpi :=
  mintToCall env (depositInvocation env user payer mint ix now) ⟨mint, false, true⟩
    ⟨getAssociatedTokenAddress env.platform user mint, false, true⟩
    ⟨BridgeEnv.pda env, false, true⟩ amount

def recorded : Ledger :=
  Function.update l (claimKey env user) ⟨MANUAL_CLAIM_PROGRAM_ID,
    UserManualDepositManagerProgramState.pod.encode ⟨ix.newManualClaimTxoRoot⟩⟩

/-- The verifier accepts the claim, the bridge would accept the deposit, and the token program
mints it. The claim state of the user is there, or its address is not used yet. -/
structure Claimable (st : BridgeState) (state : ClaimState) (core : PsyBridgeProgramState)
    (amount : UInt64) (l' : Ledger) : Prop where
  holds : Holds env l st
  claimed : (l (claimKey env user) = ⟨SYSTEM_PROGRAM_ID, []⟩ ∧
      state = UserManualDepositManagerProgramState.newEmpty) ∨
    l (claimKey env user) =
      ⟨MANUAL_CLAIM_PROGRAM_ID, UserManualDepositManagerProgramState.pod.encode state⟩
  verified : env.crypto.verifyCompactZkpSlice ix.proof.toList (MANUAL_CLAIM_VK env.features).toList
    (claimInputs env.crypto state ix (getAssociatedTokenAddress env.platform user mint)
      st.coreState.custodianWalletConfigHash).toList = true
  deposit : st.coreState.processManualClaimedDeposit env.crypto ix.txHash
    ix.recentBlockMerkleTreeRoot ix.recentAutoClaimTxoRoot ix.combinedTxoIndex
    (getAssociatedTokenAddress env.platform user mint) ix.depositAmountSats = .ok (core, amount)
  token : callee env (depositInvocation env user payer mint ix now)
    (depositMint env user payer mint ix now amount)
    (install env (recorded env l user ix) { st with coreState := core }) = some l'

/-- What the user is promised: the claim is accepted by manual-claim and by the bridge, the root
is replaced, and the net amount is minted. -/
def Fulfilled (amount : UInt64) : Prop :=
  ∃ l', ManualClaim.processInstruction env (i.invocation now) l i.data =
      .ok (l', depositCall env user payer mint ix now) ∧
    (l' (claimKey env user)).data =
      UserManualDepositManagerProgramState.pod.encode ⟨ix.newManualClaimTxoRoot⟩ ∧
    Accepted env (depositInvocation env user payer mint ix now) (recorded env l user ix)
      (.processManualDeposit (ix.deposit user)) l'
      [.call (depositMint env user payer mint ix now amount)]

variable {env l user payer mint ix now} {st : BridgeState} {state : ClaimState}
  {core : PsyBridgeProgramState} {amount : UInt64} {l' : Ledger}

theorem recorded_of_ne {k : Pubkey} (hk : k ≠ claimKey env user) : recorded env l user ix k = l k :=
  Function.update_of_ne hk _ _

section

variable (h : Claimable env l user payer mint ix now st state core amount l')
include h

theorem Claimable.apart :
    BridgeEnv.pda env ≠ claimKey env user := by
  have hsystem : DOGE_BRIDGE_PROGRAM_ID ≠ SYSTEM_PROGRAM_ID := by decide
  have hclaim : DOGE_BRIDGE_PROGRAM_ID ≠ MANUAL_CLAIM_PROGRAM_ID := by decide
  intro heq
  have hs : l (BridgeEnv.pda env) = _ := h.holds
  rw [heq] at hs
  rcases h.claimed with ⟨hl, -⟩ | hl
  · rw [hl] at hs
    exact hsystem (congrArg Account.owner hs).symm
  · rw [hl] at hs
    exact hclaim (congrArg Account.owner hs).symm

theorem Claimable.created :
    ∃ l₁, createIfEmpty (claimInvocation env user payer mint ix now) l
        (claimAccounts env user payer mint) = .ok l₁ ∧
      l₁ (claimKey env user) =
        ⟨MANUAL_CLAIM_PROGRAM_ID, UserManualDepositManagerProgramState.pod.encode state⟩ ∧
      ∀ k, k ≠ claimKey env user → l₁ k = l k := by
  have hclaim : (⟨claimKey env user, false, true⟩ : AccountInfo) ∈
      (claimInvocation env user payer mint ix now).accounts := List.mem_cons_self
  have hpayer : (⟨payer, true, true⟩ : AccountInfo) ∈
      (claimInvocation env user payer mint ix now).accounts := by
    simp [claimInvocation, claimInstruction, manualClaimDepositInstruction, Instruction.invocation]
  have hsystem : (⟨SYSTEM_PROGRAM_ID, false, false⟩ : AccountInfo) ∈
      (claimInvocation env user payer mint ix now).accounts := by
    simp [claimInvocation, claimInstruction, manualClaimDepositInstruction, Instruction.invocation]
  rcases h.claimed with ⟨hl, rfl⟩ | hl
  · refine ⟨_, createIfEmpty_unused hl rfl ⟨⟨_, hpayer, rfl, rfl⟩, ⟨_, hpayer, rfl, rfl⟩⟩
      ⟨_, hsystem, rfl⟩ ⟨_, hclaim, rfl, rfl⟩, Function.update_self .., ?_⟩
    intro k hk
    exact Function.update_of_ne hk _ _
  · exact ⟨l, createIfEmpty_present hl, hl, fun _ _ => rfl⟩

theorem Claimable.minted :
    Called env (depositInvocation env user payer mint ix now) .none
      (depositMint env user payer mint ix now amount)
      (install env (recorded env l user ix) { st with coreState := core }) l' := by
  have haccounts : (depositInvocation env user payer mint ix now).accounts =
      [⟨BridgeEnv.pda env, false, true⟩,
        ⟨getAssociatedTokenAddress env.platform user mint, false, true⟩, ⟨mint, false, true⟩,
        ⟨TOKEN_PROGRAM_ID, false, false⟩, ⟨claimKey env user, true, false⟩] := rfl
  refine ⟨?_, ⟨⟨TOKEN_PROGRAM_ID, false, false⟩, by simp [haccounts], rfl⟩, ?_, h.token⟩
  · intro _ m _
    exact ⟨List.not_mem_nil, fun _ => List.not_mem_nil⟩
  · intro m hm
    have hpda : (⟨BridgeEnv.pda env, false, true⟩ : AccountInfo) ∈
        (depositInvocation env user payer mint ix now).accounts := by simp [haccounts]
    have hata : (⟨getAssociatedTokenAddress env.platform user mint, false, true⟩ : AccountInfo) ∈
        (depositInvocation env user payer mint ix now).accounts := by simp [haccounts]
    have hmint : (⟨mint, false, true⟩ : AccountInfo) ∈
        (depositInvocation env user payer mint ix now).accounts := by simp [haccounts]
    simp only [depositMint, mintToCall, List.mem_cons, List.not_mem_nil, or_false] at hm
    rcases hm with rfl | rfl | rfl
    · exact ⟨⟨_, hmint, rfl⟩, nofun, fun _ => ⟨_, hmint, rfl, rfl⟩⟩
    · exact ⟨⟨_, hata, rfl⟩, nofun, fun _ => ⟨_, hata, rfl, rfl⟩⟩
    · exact ⟨⟨_, hpda, rfl⟩, fun _ => .inr rfl, nofun⟩

theorem Claimable.accepted :
    Accepted env (depositInvocation env user payer mint ix now) (recorded env l user ix)
      (.processManualDeposit (ix.deposit user)) l'
      [.call (depositMint env user payer mint ix now amount)] := by
  have hs : Holds env (recorded env l user ix) st := (recorded_of_ne h.apart).trans h.holds
  have hwrites : (depositInvocation env user payer mint ix now).writes (BridgeEnv.pda env) :=
    ⟨⟨BridgeEnv.pda env, false, true⟩, List.mem_cons_self, rfl, rfl⟩
  exact .processManualDeposit rfl rfl rfl (congrArg Account.data hs) h.deposit
    (writeState_ok.mpr ⟨.inr ⟨congrArg Account.owner hs, hwrites⟩,
      (Holds.setData_eq_install hs).symm⟩) h.minted

theorem Claimable.called :
    claimCallee env (claimInvocation env user payer mint ix now)
      (depositCall env user payer mint ix now) (recorded env l user ix) = some l' := by
  have hran : BridgeProcessor.processInstruction env (depositInvocation env user payer mint ix now)
      (recorded env l user ix) (depositCall env user payer mint ix now).data =
      .ok (l', [.call (depositMint env user payer mint ix now amount)]) :=
    AcceptedInstructions.processInstruction_ok.mpr ⟨_, unpack_manualDepositCall .., h.accepted⟩
  have hprogram : (depositCall env user payer mint ix now).programId = DOGE_BRIDGE_PROGRAM_ID := rfl
  rw [claimCallee, if_pos hprogram]
  change (BridgeProcessor.processInstruction env (depositInvocation env user payer mint ix now)
    (recorded env l user ix) (depositCall env user payer mint ix now).data).toOption.map _ = _
  rw [hran]
  rfl

/-- With the right to write the state of the bridge, and without the check of borrows, the claim
goes through. -/
theorem Claimable.claim_accepted
    (hwrites : (claimInvocation env user payer mint ix now).writes (BridgeEnv.pda env))
    (hborrows : env.platform.checksBorrows = false) :
    ClaimAccepted env (claimInvocation env user payer mint ix now) l ix l'
      (depositCall env user payer mint ix now) := by
  obtain ⟨l₁, hcreated, hstate, hkept⟩ := h.created
  have hrecorded : l₁.setData (claimKey env user) (UserManualDepositManagerProgramState.pod.encode
      ⟨ix.newManualClaimTxoRoot⟩) = recorded env l user ix := by
    funext k
    by_cases hk : k = claimKey env user
    · subst hk
      rw [setData_self, hstate, recorded, Function.update_self]
    · rw [setData_of_ne hk, hkept k hk, recorded_of_ne hk]
  have hclaim : (⟨claimKey env user, false, true⟩ : AccountInfo) ∈
      (claimInvocation env user payer mint ix now).accounts := List.mem_cons_self
  have hread : ClaimAccounts.read (claimInvocation env user payer mint ix now).accounts =
      some (claimAccounts env user payer mint) := rfl
  obtain ⟨hlisted, hgranted⟩ := claim_granted env hread rfl hwrites rfl rfl (ix.deposit user)
  refine .intro hread rfl rfl rfl hcreated (congrArg Account.data hstate) h.apart
    ((congrArg Account.data (hkept _ h.apart)).trans (congrArg Account.data h.holds)) h.verified
    (writeData_ok.mpr ⟨.inr ⟨congrArg Account.owner hstate, ⟨_, hclaim, rfl, rfl⟩⟩, hrecorded.symm⟩)
    ?_ hlisted hgranted h.called
  intro hchecks
  rw [hborrows] at hchecks
  cases hchecks

theorem Claimable.root_kept
    (htoken : Bystander env.platform (· = MANUAL_CLAIM_PROGRAM_ID) TOKEN_PROGRAM_ID) :
    (l' (claimKey env user)).data =
      UserManualDepositManagerProgramState.pod.encode ⟨ix.newManualClaimTxoRoot⟩ := by
  have hcall := h.token
  rw [callee_token rfl rfl] at hcall
  have hroot : install env (recorded env l user ix) { st with coreState := core }
      (claimKey env user) = ⟨MANUAL_CLAIM_PROGRAM_ID,
        UserManualDepositManagerProgramState.pod.encode ⟨ix.newManualClaimTxoRoot⟩⟩ := by
    rw [install_of_ne h.apart.symm, recorded, Function.update_self]
  rw [(htoken _ _ _ _ hcall).kept _ (congrArg Account.owner hroot), hroot]

end

/-- A claim that everyone concerned would accept is fulfilled only if the instruction lets the
bridge write its state and the calling convention does not look at borrows. -/
theorem claim_fulfilled_iff {i : Instruction}
    (htoken : Bystander env.platform (· = MANUAL_CLAIM_PROGRAM_ID) TOKEN_PROGRAM_ID)
    (built : BuiltByClient env.platform user payer mint ix i)
    (h : Claimable env l user payer mint ix now st state core amount l') :
    Fulfilled env l i user payer mint ix now amount ↔
      (i.invocation now).writes (BridgeEnv.pda env) ∧ env.platform.checksBorrows = false := by
  obtain rfl := built.eq
  obtain ⟨hlong, hread⟩ := claimInstruction_read env.platform user payer mint ix
  constructor
  · rintro ⟨l₂, hran, -, -⟩
    obtain ⟨-, ix', -, haccepted⟩ := ManualClaim.processInstruction_ok.mp hran
    exact ⟨haccepted.writes rfl, haccepted.unchecked⟩
  · rintro ⟨hwrites, hborrows⟩
    exact ⟨l', ManualClaim.processInstruction_ok.mpr ⟨hlong, ix, hread,
      h.claim_accepted hwrites hborrows⟩, h.root_kept htoken, h.accepted⟩

end Claims

def ataKey : Pubkey := const32 0xfb9dfd4c4841568a4f85fec796e9a2c1b4c3eb3dd7ed981e3cbf6fe26c176bcf
def claimStateKey : Pubkey :=
  const32 0x5bb8739bb3fa4ca633608067874ccceb105c6a5da08afb282d120c3908134dd9

theorem ataKey_derived :
    getAssociatedTokenAddress cluster.platform operatorKey mintKey = ataKey := by
  decide +kernel

theorem claimStateKey_derived : claimKey cluster operatorKey = claimStateKey := by decide +kernel

def claimLedger : Ledger :=
  Function.update (Function.update emptyLedger ataKey (tokenAccount mintKey operatorKey 0)) mintKey
    (mintAccount bridgeState 0)

def sampleClaim : ManualClaimInstruction where
  proof := Vector.replicate 256 0
  recentBlockMerkleTreeRoot := zeroBytes
  recentAutoClaimTxoRoot := zeroBytes
  newManualClaimTxoRoot := zeroBytes
  txHash := zeroBytes
  combinedTxoIndex := 0
  depositAmountSats := 1000

theorem sample_claimable :
    ∃ core l', Claimable cluster (install cluster claimLedger (genesisState operatorKey 10))
      operatorKey operatorKey mintKey sampleClaim 0 (genesisState operatorKey 10)
      UserManualDepositManagerProgramState.newEmpty core 990 l' := by
  obtain ⟨core, hdeposit⟩ : ∃ core,
    (genesisState operatorKey 10).coreState.processManualClaimedDeposit
      cluster.crypto sampleClaim.txHash sampleClaim.recentBlockMerkleTreeRoot
      sampleClaim.recentAutoClaimTxoRoot sampleClaim.combinedTxoIndex
      (getAssociatedTokenAddress cluster.platform operatorKey mintKey)
      sampleClaim.depositAmountSats = .ok (core, 990) :=
    ⟨_, PsyBridgeProgramState.processManualClaimedDeposit_ok.mpr
      ⟨by decide, by decide, ⟨10, 990⟩, by decide, by decide, by decide, rfl,
        rfl⟩⟩
  have hfar {k : Pubkey} (hk : k ≠ bridgeState) (hc : k ≠ claimStateKey) :
      install cluster (recorded cluster (install cluster claimLedger (genesisState operatorKey 10))
        operatorKey sampleClaim) { genesisState operatorKey 10 with coreState := core } k =
        claimLedger k := by
    rw [← cluster_pda] at hk
    rw [← claimStateKey_derived] at hc
    rw [install_of_ne hk, recorded_of_ne hc, install_of_ne hk]
  have hata : install cluster (recorded cluster (install cluster claimLedger
      (genesisState operatorKey 10)) operatorKey sampleClaim)
      { genesisState operatorKey 10 with coreState := core }
      (⟨getAssociatedTokenAddress cluster.platform operatorKey mintKey, false, true⟩ :
        AccountInfo).key = tokenAccount mintKey operatorKey 0 := by
    rw [writable_key, ataKey_derived, hfar (by decide) (by decide)]
    decide +kernel
  obtain ⟨l', hminted⟩ : ∃ l', Called cluster
      (depositInvocation cluster operatorKey operatorKey mintKey sampleClaim 0) .none
      (depositMint cluster operatorKey operatorKey mintKey sampleClaim 0 990) _ l' :=
    mint_called rfl rfl (by decide) (by decide +kernel) (by decide +kernel) rfl cluster_pda_key
      ((hfar (by decide) (by decide)).trans (by decide)) hata
  have hunused : install cluster claimLedger (genesisState operatorKey 10)
      (claimKey cluster operatorKey) = ⟨SYSTEM_PROGRAM_ID, []⟩ := by
    have hne : claimStateKey ≠ BridgeEnv.pda cluster := ne_pda (by decide)
    rw [claimStateKey_derived, install_of_ne hne]
    decide
  exact ⟨core, l', install_holds _ _ _, .inl ⟨hunused, rfl⟩, rfl, hdeposit, hminted.2.2.2⟩

/-- The claim is one that everyone would accept, and it is refused. -/
theorem sample_claim_refused :
    (∃ core l', Claimable cluster (install cluster claimLedger (genesisState operatorKey 10))
      operatorKey operatorKey mintKey sampleClaim 0 (genesisState operatorKey 10)
      UserManualDepositManagerProgramState.newEmpty core 990 l') ∧
    ∀ r, ManualClaim.processInstruction cluster
      ((claimInstruction cluster.platform operatorKey operatorKey mintKey sampleClaim).invocation 0)
      (install cluster claimLedger (genesisState operatorKey 10))
      (claimInstruction cluster.platform operatorKey operatorKey mintKey sampleClaim).data ≠
        .ok r := by
  refine ⟨sample_claimable, ?_⟩
  intro r hran
  obtain ⟨-, ix, -, haccepted⟩ := ManualClaim.processInstruction_ok.mp hran
  cases haccepted.unchecked

theorem sample_claim_unfulfilled :
    ∃ core l', Claimable cluster (install cluster claimLedger (genesisState operatorKey 10))
        operatorKey operatorKey mintKey sampleClaim 0 (genesisState operatorKey 10)
        UserManualDepositManagerProgramState.newEmpty core 990 l' ∧
      ¬ Fulfilled cluster (install cluster claimLedger (genesisState operatorKey 10))
        (claimInstruction cluster.platform operatorKey operatorKey mintKey sampleClaim) operatorKey
        operatorKey mintKey sampleClaim 0 990 := by
  have htoken : Bystander cluster.platform (· = MANUAL_CLAIM_PROGRAM_ID) TOKEN_PROGRAM_ID := by
    apply token_bystander
    decide
  obtain ⟨core, l', h⟩ := sample_claimable
  refine ⟨core, l', h, ?_⟩
  intro hfulfilled
  obtain ⟨-, hborrows⟩ := (claim_fulfilled_iff htoken .operator h).mp hfulfilled
  cases hborrows

end ManualClaimClient
