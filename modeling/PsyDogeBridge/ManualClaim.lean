import PsyDogeBridge.AcceptedInstructions
import PsyDogeBridge.InstructionCodec

/-! The manual-claim program. It keeps for each user the root of what they have claimed, checks
the proof of one more claim, and has the bridge mint the deposit. -/
namespace ManualClaim

open PodLayout CheckedSteps SolanaRuntime BridgeData AppendTree ProgramState BridgeCalls
  BridgeProcessor AcceptedInstructions InstructionCodec

inductive ManualClaimError where
  | coreError
  | serializationError
  | invalidPDA
  | invalidRecipientATA
  deriving DecidableEq, Repr

abbrev ClaimResult (α : Type) := Except (Failure ManualClaimError) α

structure ManualClaimInstruction where
  proof : CompactBridgeZKProof
  recentBlockMerkleTreeRoot : QHash256
  recentAutoClaimTxoRoot : QHash256
  newManualClaimTxoRoot : QHash256
  txHash : QHash256
  combinedTxoIndex : UInt64
  depositAmountSats : UInt64
  deriving DecidableEq

def ManualClaimInstruction.pod : Pod ManualClaimInstruction :=
  ((Pod.bytes 256).prod (hashPod.prod (hashPod.prod (hashPod.prod (hashPod.prod
    (Pod.u64.prod Pod.u64)))))).record
  { toFun d := (d.proof, d.recentBlockMerkleTreeRoot, d.recentAutoClaimTxoRoot,
      d.newManualClaimTxoRoot, d.txHash, d.combinedTxoIndex, d.depositAmountSats)
    invFun := fun (a, b, c, d, e, f, g) => ⟨a, b, c, d, e, f, g⟩
    left_inv _ := rfl
    right_inv _ := rfl }

structure UserManualDepositManagerProgramState where
  manualClaimedTxoTreeRoot : QHash256
  deriving DecidableEq

abbrev ClaimState := UserManualDepositManagerProgramState

def UserManualDepositManagerProgramState.pod : Pod ClaimState :=
  hashPod.record
  { toFun s := s.manualClaimedTxoTreeRoot
    invFun := fun a => ⟨a⟩
    left_inv _ := rfl
    right_inv _ := rfl }

def UserManualDepositManagerProgramState.newEmpty : ClaimState := ⟨TXO_EMPTY_MERKLE_TREE_ROOT⟩

def MANUAL_CLAIM_VK (f : Features) : Vector UInt8 32 :=
  if f.mockZkp then
    const32 0xf4eeab4e83ab63c88d72ba1d544f2fe9c1518173234ab906e658574def681930
  else zeroBytes

def ASSOCIATED_TOKEN_PROGRAM_ID : Pubkey :=
  const32 0x8c97258f4e2489f1bb3d1029148e0d830b5a1399daff1084048e7bd8dbe9f859

def getAssociatedTokenAddress (p : Platform) (wallet mint : Pubkey) : Pubkey :=
  (p.findProgramAddress [wallet.toList, TOKEN_PROGRAM_ID.toList, mint.toList]
    ASSOCIATED_TOKEN_PROGRAM_ID).1

section Program

variable (env : BridgeEnv) (inv : Invocation) (l : Ledger)

def claimPda (user : Pubkey) : Pubkey :=
  (env.platform.findProgramAddress [MANUAL_CLAIM_SEED, user.toList] inv.programId).1

structure ClaimAccounts where
  claimState : AccountInfo
  bridgeState : AccountInfo
  recipient : AccountInfo
  dogeMint : AccountInfo
  tokenProgram : AccountInfo
  mainBridgeProgram : AccountInfo
  user : AccountInfo
  payer : AccountInfo
  systemProgram : AccountInfo

def ClaimAccounts.read : List AccountInfo → Option ClaimAccounts
  | a :: b :: c :: d :: e :: f :: g :: h :: i :: _ => some ⟨a, b, c, d, e, f, g, h, i⟩
  | _ => none

def ManualClaimInstruction.deposit (ix : ManualClaimInstruction) (user : Pubkey) :
    ProcessManualDepositInstructionData where
  txHash := ix.txHash
  recentBlockMerkleTreeRoot := ix.recentBlockMerkleTreeRoot
  recentAutoClaimTxoRoot := ix.recentAutoClaimTxoRoot
  combinedTxoIndex := ix.combinedTxoIndex
  depositorSolanaPublicKey := user
  depositAmountSats := ix.depositAmountSats

def manualDepositCall (a : ClaimAccounts)
    (deposit : ProcessManualDepositInstructionData) : Cpi where
  programId := a.mainBridgeProgram.key
  accounts := [⟨a.bridgeState.key, false, true⟩, ⟨a.recipient.key, false, true⟩,
    ⟨a.dogeMint.key, false, true⟩, ⟨a.tokenProgram.key, false, false⟩,
    ⟨a.claimState.key, true, false⟩]
  data := 5 :: (List.replicate 7 0 ++ ProcessManualDepositInstructionData.pod.encode deposit)
  signer := some (claimPda env inv a.user.key)

def calledInvocation (c : Cpi) : Invocation :=
  { inv with
    programId := c.programId
    accounts := c.accounts }

/-- Any program can be called. The program does not accept its own message. -/
def claimCallee (c : Cpi) (l : Ledger) : Option Ledger :=
  if c.programId = DOGE_BRIDGE_PROGRAM_ID then
    (BridgeProcessor.processInstruction env (calledInvocation inv c) l c.data).toOption.map Prod.fst
  else callee env inv c l

def createIfEmpty (a : ClaimAccounts) : ClaimResult Ledger :=
  if (l a.claimState.key).data.length = 0 then do
    ensure (inv.signs a.payer.key ∧ inv.writes a.payer.key) (.program .privilegeEscalation)
    let l ← createDerived inv l a.claimState.key UserManualDepositManagerProgramState.pod.size
    writeData inv l a.claimState.key
      (UserManualDepositManagerProgramState.pod.encode
        UserManualDepositManagerProgramState.newEmpty)
  else do
    ensure ((l a.claimState.key).owner = inv.programId) (.custom .invalidPDA)
    pure l

def claimInputs (c : Crypto) (state : ClaimState) (ix : ManualClaimInstruction)
    (tokenPda custodianWalletConfigHash : QHash256) : QHash256 :=
  getManualDepositProofPublicInputs c ix.recentBlockMerkleTreeRoot ix.recentAutoClaimTxoRoot
    state.manualClaimedTxoTreeRoot ix.newManualClaimTxoRoot ix.txHash tokenPda
    custodianWalletConfigHash ix.combinedTxoIndex ix.depositAmountSats

/-- `manual_claim_deposit`, whose errors all become `CoreError`. The claim state stays mutably
borrowed while the bridge is called. -/
def manualClaimDeposit (a : ClaimAccounts) (ix : ManualClaimInstruction) (state : ClaimState)
    (custodianWalletConfigHash : QHash256) : ClaimResult (Ledger × Cpi) := do
  let expectedPublicInputs :=
    claimInputs env.crypto state ix a.recipient.key custodianWalletConfigHash
  ensure (env.crypto.verifyCompactZkpSlice ix.proof.toList (MANUAL_CLAIM_VK env.features).toList
    expectedPublicInputs.toList = true) (.custom .coreError)
  let l ← writeData inv l a.claimState.key
    (UserManualDepositManagerProgramState.pod.encode ⟨ix.newManualClaimTxoRoot⟩)
  let c := manualDepositCall env inv a (ix.deposit a.user.key)
  let l ← relabel (inv.invoke (ε := Empty) env.platform ⟨[a.claimState.key], []⟩ c
    (claimCallee env inv) l) (.custom .coreError)
  pure (l, c)

def processClaim (ix : ManualClaimInstruction) : ClaimResult (Ledger × Cpi) := do
  let a ← orFail (ClaimAccounts.read inv.accounts) (.program .notEnoughAccountKeys)
  ensure (a.user.isSigner = true) (.program .missingRequiredSignature)
  ensure (claimPda env inv a.user.key = a.claimState.key) (.custom .invalidPDA)
  ensure (getAssociatedTokenAddress env.platform a.user.key a.dogeMint.key = a.recipient.key)
    (.custom .invalidRecipientATA)
  let l ← createIfEmpty inv l a
  let state ← orFail (UserManualDepositManagerProgramState.pod.read (l a.claimState.key).data)
    (.custom .serializationError)
  -- the claim state is borrowed already, so the bridge state cannot be the same account
  ensure (a.bridgeState.key ≠ a.claimState.key) (.program .accountBorrowFailed)
  let bridge ← orFail (BridgeState.pod.read (l a.bridgeState.key).data)
    (.custom .serializationError)
  manualClaimDeposit env inv l a ix state bridge.coreState.custodianWalletConfigHash

def processInstruction (instructionData : Bytes) : ClaimResult (Ledger × Cpi) := do
  ensure (8 ≤ instructionData.length) .panic
  let ix ← orFail (ManualClaimInstruction.pod.read (instructionData.drop 8))
    (.custom .serializationError)
  processClaim env inv l ix

end Program

section Accepted

variable {env : BridgeEnv} {inv : Invocation} {l l' : Ledger} {ix : ManualClaimInstruction}
  {c : Cpi}

variable {a : ClaimAccounts}

theorem ClaimAccounts.read_eq {accounts : List AccountInfo} :
    ClaimAccounts.read accounts = some a ↔ ∃ rest, accounts = a.claimState :: a.bridgeState ::
      a.recipient :: a.dogeMint :: a.tokenProgram :: a.mainBridgeProgram :: a.user :: a.payer ::
      a.systemProgram :: rest := by
  constructor
  · intro h
    unfold ClaimAccounts.read at h
    split at h
    · cases h
      exact ⟨_, rfl⟩
    · cases h
  · rintro ⟨rest, rfl⟩
    rfl

theorem unpack_manualDepositCall (env : BridgeEnv) (inv : Invocation) (a : ClaimAccounts)
    (deposit : ProcessManualDepositInstructionData) :
    unpack (manualDepositCall env inv a deposit).data = .ok (.processManualDeposit deposit) := by
  simp [unpack, manualDepositCall]

theorem claim_granted (env : BridgeEnv) (hread : ClaimAccounts.read inv.accounts = some a)
    (pda : claimPda env inv a.user.key = a.claimState.key) (hbridge : inv.writes a.bridgeState.key)
    (hrecipient : a.recipient.isWritable = true) (hmint : a.dogeMint.isWritable = true)
    (deposit : ProcessManualDepositInstructionData) :
    inv.lists a.mainBridgeProgram.key ∧ ∀ m ∈ (manualDepositCall env inv a deposit).accounts,
      inv.grants (manualDepositCall env inv a deposit) m := by
  obtain ⟨rest, haccounts⟩ := ClaimAccounts.read_eq.mp hread
  have hin {m : AccountInfo} (hm : m ∈ [a.claimState, a.bridgeState, a.recipient, a.dogeMint,
      a.tokenProgram, a.mainBridgeProgram]) : m ∈ inv.accounts := by
    rw [haccounts]
    simp only [List.mem_cons, List.not_mem_nil, or_false] at hm ⊢
    tauto
  have hno {P : Prop} (h : false = true) : P := absurd h Bool.false_ne_true
  refine ⟨⟨_, hin (m := a.mainBridgeProgram) (by simp), rfl⟩, ?_⟩
  intro m hm
  simp only [manualDepositCall, List.mem_cons, List.not_mem_nil, or_false] at hm
  rcases hm with rfl | rfl | rfl | rfl | rfl
  · exact ⟨⟨_, hin (m := a.bridgeState) (by simp), rfl⟩, hno, fun _ => hbridge⟩
  · have hmem := hin (m := a.recipient) (by simp)
    exact ⟨⟨_, hmem, rfl⟩, hno, fun _ => ⟨_, hmem, rfl, hrecipient⟩⟩
  · have hmem := hin (m := a.dogeMint) (by simp)
    exact ⟨⟨_, hmem, rfl⟩, hno, fun _ => ⟨_, hmem, rfl, hmint⟩⟩
  · exact ⟨⟨_, hin (m := a.tokenProgram) (by simp), rfl⟩, hno, hno⟩
  · exact ⟨⟨_, hin (m := a.claimState) (by simp), rfl⟩, fun _ => .inr (congrArg some pda), hno⟩

theorem createIfEmpty_unused (hl : l a.claimState.key = ⟨SYSTEM_PROGRAM_ID, []⟩)
    (funds : inv.fundsSuffice = true) (paid : inv.signs a.payer.key ∧ inv.writes a.payer.key)
    (listed : inv.lists SYSTEM_PROGRAM_ID) (writable : inv.writes a.claimState.key) :
    createIfEmpty inv l a = .ok (Function.update l a.claimState.key ⟨inv.programId,
      UserManualDepositManagerProgramState.pod.encode
        UserManualDepositManagerProgramState.newEmpty⟩) := by
  have hempty : (l a.claimState.key).data.length = 0 := by rw [hl]; rfl
  rw [createIfEmpty, if_pos hempty]
  simp only [bind_ok, ensure_ok, exists_const, createDerived_ok, writeData_ok]
  refine ⟨paid, _, ⟨listed, writable, funds, ⟨congrArg Account.owner hl, congrArg Account.data hl⟩,
    rfl⟩, .inr ⟨?_, writable⟩, ?_⟩
  · rw [Function.update_self]
  · rw [Ledger.setData, Function.update_self, Function.update_idem]

theorem createIfEmpty_present {state : ClaimState} (hl : l a.claimState.key = ⟨inv.programId,
      UserManualDepositManagerProgramState.pod.encode state⟩) :
    createIfEmpty inv l a = .ok l := by
  have hlen : ¬ (l a.claimState.key).data.length = 0 := by
    rw [hl, Pod.encode_length]
    decide
  rw [createIfEmpty, if_neg hlen]
  simp only [bind_ok, ensure_ok, exists_const, pure_ok, and_true]
  rw [hl]

inductive ClaimAccepted (env : BridgeEnv) (inv : Invocation) (l : Ledger)
    (ix : ManualClaimInstruction) : Ledger → Cpi → Prop where
  | intro {a l₁ l₂ l₃ state bridge}
      (accounts : ClaimAccounts.read inv.accounts = some a)
      (signed : a.user.isSigner = true)
      (pda : claimPda env inv a.user.key = a.claimState.key)
      (ata : getAssociatedTokenAddress env.platform a.user.key a.dogeMint.key = a.recipient.key)
      (created : createIfEmpty inv l a = .ok l₁)
      (read : (l₁ a.claimState.key).data = UserManualDepositManagerProgramState.pod.encode state)
      (apart : a.bridgeState.key ≠ a.claimState.key)
      (bridgeRead : (l₁ a.bridgeState.key).data = BridgeState.pod.encode bridge)
      (verified : env.crypto.verifyCompactZkpSlice ix.proof.toList
        (MANUAL_CLAIM_VK env.features).toList (claimInputs env.crypto state ix a.recipient.key
          bridge.coreState.custodianWalletConfigHash).toList = true)
      (write : writeData (ε := ManualClaimError) inv l₁ a.claimState.key
        (UserManualDepositManagerProgramState.pod.encode ⟨ix.newManualClaimTxoRoot⟩) = .ok l₂)
      (unborrowed : env.platform.checksBorrows → ∀ m ∈ (manualDepositCall env inv a
        (ix.deposit a.user.key)).accounts, Borrows.permit ⟨[a.claimState.key], []⟩ m)
      (listed : inv.lists a.mainBridgeProgram.key)
      (granted : ∀ m ∈ (manualDepositCall env inv a (ix.deposit a.user.key)).accounts,
        inv.grants (manualDepositCall env inv a (ix.deposit a.user.key)) m)
      (called : claimCallee env inv (manualDepositCall env inv a (ix.deposit a.user.key)) l₂ =
        some l₃) :
      ClaimAccepted env inv l ix l₃ (manualDepositCall env inv a (ix.deposit a.user.key))

theorem processClaim_ok : processClaim env inv l ix = .ok (l', c) ↔
    ClaimAccepted env inv l ix l' c := by
  simp only [processClaim, manualClaimDeposit, bind_ok, ensure_ok, exists_const, orFail_ok,
    relabel_ok, pure_ok, Prod.mk.injEq, invoke_ok, Pod.read_eq_some]
  constructor
  · rintro ⟨a, ha, hs, hp, hr, l₁, hl₁, state, hstate, hne, bridge, hbridge, hv, l₂, hw, l₃,
      ⟨hb, hl, hg, hc⟩, rfl, rfl⟩
    exact .intro ha hs hp hr hl₁ hstate hne hbridge hv hw hb hl hg hc
  · rintro ⟨ha, hs, hp, hr, hl₁, hstate, hne, hbridge, hv, hw, hb, hl, hg, hc⟩
    exact ⟨_, ha, hs, hp, hr, _, hl₁, _, hstate, hne, _, hbridge, hv, _, hw, _, ⟨hb, hl, hg, hc⟩,
      rfl, rfl⟩

theorem processInstruction_ok {data : Bytes} : processInstruction env inv l data = .ok (l', c) ↔
    8 ≤ data.length ∧ ∃ ix, data.drop 8 = ManualClaimInstruction.pod.encode ix ∧
      ClaimAccepted env inv l ix l' c := by
  simp only [processInstruction, bind_ok, ensure_ok, exists_const, orFail_ok, processClaim_ok,
    Pod.read_eq_some]

/-- The claim state is passed on while the program holds it, so where the calling convention looks
at borrows no claim at all is accepted. -/
theorem ClaimAccepted.unchecked (h : ClaimAccepted env inv l ix l' c) :
    env.platform.checksBorrows = false := by
  obtain @⟨a, -, -, -, -, -, -, -, -, -, -, -, -, -, -, -, unborrowed, -, -, -⟩ := h
  by_contra hchecks
  have hpermit := unborrowed (Bool.not_eq_false _ ▸ hchecks) ⟨a.claimState.key, true, false⟩
    (by simp [manualDepositCall])
  exact hpermit.1 (List.mem_singleton_self _)

theorem ClaimAccepted.calls (h : ClaimAccepted env inv l ix l' c) :
    ∃ a, ClaimAccounts.read inv.accounts = some a ∧
      c = manualDepositCall env inv a (ix.deposit a.user.key) := by
  cases h with
  | intro accounts => exact ⟨_, accounts, rfl⟩

theorem ClaimAccepted.writes (ha : ClaimAccounts.read inv.accounts = some a)
    (h : ClaimAccepted env inv l ix l' c) :
    inv.writes a.bridgeState.key := by
  obtain @⟨b, -, -, -, -, -, hb, -, -, -, -, -, -, -, -, -, -, -, granted, -⟩ := h
  rw [ha] at hb
  cases hb
  exact (granted ⟨a.bridgeState.key, false, true⟩ (by simp [manualDepositCall])).2.2 rfl

end Accepted

end ManualClaim
