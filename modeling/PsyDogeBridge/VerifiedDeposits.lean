import PsyDogeBridge.ManualClaimClient
import PsyDogeBridge.ProgramCalls

/-! Is every manual deposit that the bridge mints one that manual-claim has verified? -/
namespace VerifiedDeposits

open CheckedSteps SolanaRuntime BridgeData ProgramState BridgeCalls BridgeProcessor
  AcceptedInstructions BridgeSystem LocalCluster SignedCalls CallTrace ProgramCalls ManualClaim
  ManualClaimClient

variable {env : BridgeEnv} {tr : List Call} {i j : ℕ} {c d : Call}
  {deposit : ProcessManualDepositInstructionData} {recipient : Pubkey}

/-- The root that is stored for a user. Who has no claim account has claimed nothing. -/
def StoredRoot (env : BridgeEnv) (l : Ledger) (user : Pubkey) (state : ClaimState) : Prop :=
  ((l (claimKey env user)).data = [] ∧ state = UserManualDepositManagerProgramState.newEmpty) ∨
    ((l (claimKey env user)).owner = MANUAL_CLAIM_PROGRAM_ID ∧
      (l (claimKey env user)).data = UserManualDepositManagerProgramState.pod.encode state)

/-- Manual-claim has verified the deposit in this transaction: a proof for its hash, index and
amount and for the recipient, against the root that is stored for the depositor and the
configuration of the custodian's wallet in the state of the bridge. -/
inductive Verified (env : BridgeEnv) (tr : List Call)
    (deposit : ProcessManualDepositInstructionData) (recipient : Pubkey) : Prop where
  | intro {j : ℕ} {claim : Call} {inv : Invocation} {ix : ManualClaimInstruction}
      {state : ClaimState} {bridge : BridgeState} {l' : Ledger} {call : Cpi}
      (called : tr[j]? = some claim) (program : claim.frame.programId = MANUAL_CLAIM_PROGRAM_ID)
      (ran : claim.frame.runsAs inv)
      (decoded : claim.frame.data.drop 8 = ManualClaimInstruction.pod.encode ix)
      (accepted : ManualClaim.processInstruction env inv claim.before claim.frame.data =
        .ok (l', call))
      (signed : claim.frame.signs deposit.depositorSolanaPublicKey)
      (stored : StoredRoot env claim.before deposit.depositorSolanaPublicKey state)
      (held : (claim.before (BridgeEnv.pda env)).data = BridgeState.pod.encode bridge)
      (verified : env.crypto.verifyCompactZkpSlice ix.proof.toList
        (MANUAL_CLAIM_VK env.features).toList (claimInputs env.crypto state ix recipient
          bridge.coreState.custodianWalletConfigHash).toList = true)
      (sameTx : deposit.txHash = ix.txHash)
      (sameIndex : deposit.combinedTxoIndex = ix.combinedTxoIndex)
      (sameAmount : deposit.depositAmountSats = ix.depositAmountSats)

inductive Minted (env : BridgeEnv) (tr : List Call)
    (deposit : ProcessManualDepositInstructionData) (recipient : Pubkey) : Prop where
  | intro {i : ℕ} {c : Call} {inv : Invocation} {l' : Ledger} {es : List Effect}
      {mint account authority : AccountInfo} {amount : UInt64}
      (called : tr[i]? = some c) (program : c.frame.programId = DOGE_BRIDGE_PROGRAM_ID)
      (ran : c.frame.runsAs inv)
      (decoded : unpack c.frame.data = .ok (.processManualDeposit deposit))
      (accepted : Accepted env inv c.before (.processManualDeposit deposit) l' es)
      (minted : .call (mintToCall env inv mint account authority amount) ∈ es)
      (received : account.key = recipient)

/-- The claim names the bridge as the program to call. -/
def NamesBridge (f : Frame) : Prop :=
  ∃ a, f.accounts[5]? = some a ∧ a.key = DOGE_BRIDGE_PROGRAM_ID

section Claims

variable {inv : Invocation} {l l₁ : Ledger} {a : ClaimAccounts} {state : ClaimState} {user : Pubkey}

theorem stored_of_created (hp : inv.programId = MANUAL_CLAIM_PROGRAM_ID)
    (hk : claimKey env user = a.claimState.key) (h : ManualClaim.createIfEmpty inv l a = .ok l₁)
    (hread : (l₁ a.claimState.key).data = UserManualDepositManagerProgramState.pod.encode state) :
    StoredRoot env l user state ∧ ∀ k, k ≠ a.claimState.key → l₁ k = l k := by
  unfold ManualClaim.createIfEmpty at h
  split at h
  · next hempty =>
    simp only [bind_ok, ensure_ok, exists_const, createDerived_ok, writeData_ok] at h
    obtain ⟨-, l₂, ⟨-, -, -, -, rfl⟩, -, rfl⟩ := h
    rw [setData_self] at hread
    have hstate := UserManualDepositManagerProgramState.pod.encode_injective hread
    refine ⟨.inl ⟨?_, hstate.symm⟩, ?_⟩
    · rw [hk]
      exact List.length_eq_zero_iff.mp hempty
    · intro k hne
      rw [setData_of_ne hne, Function.update_of_ne hne]
  · simp only [bind_ok, ensure_ok, exists_const, pure_ok] at h
    obtain ⟨howner, rfl⟩ := h
    refine ⟨.inr ⟨?_, ?_⟩, fun _ _ => rfl⟩
    · rw [hk, howner, hp]
    · rw [hk, hread]

theorem called_from_claim (h : Succeeded env tr) (hc : tr[i]? = some c) (hj : c.caller = some j)
    (hd : tr[j]? = some d) (hp : d.frame.programId = MANUAL_CLAIM_PROGRAM_ID) :
    c.frame.programId ∈ servicePrograms ∨ ∃ inv ix l' call, d.frame.runsAs inv ∧
      d.frame.data.drop 8 = ManualClaimInstruction.pod.encode ix ∧
      ManualClaim.processInstruction env inv d.before d.frame.data = .ok (l', call) ∧
      ClaimAccepted env inv d.before ix l' call ∧ c.frame = .ofCpi call := by
  obtain ⟨inv, l', call, hinv, hran, hcalls⟩ := (h.ran j d hd).claim hp
  rcases hcalls _ (mem_calledBy hc hj) with hframe | hsystem
  · obtain ⟨-, ix, hdata, haccepted⟩ := ManualClaim.processInstruction_ok.mp hran
    exact .inr ⟨inv, ix, l', call, hinv, hdata, hran, haccepted, hframe⟩
  · exact .inl (hsystem ▸ system_service)

/-- What a claim that names the bridge has called passes the signature on to service programs
only. -/
theorem below_claim (h : Succeeded env tr)
    (named : env.platform.checksBorrows = false → ∀ c ∈ tr,
      c.frame.programId = MANUAL_CLAIM_PROGRAM_ID → NamesBridge c.frame)
    (hc : tr[i]? = some c) (hj : c.caller = some j) (hd : tr[j]? = some d)
    (hfrom : CalledFrom tr MANUAL_CLAIM_PROGRAM_ID d) : c.frame.programId ∈ servicePrograms := by
  obtain ⟨g, b, hg, hb, hclaim⟩ := hfrom
  rcases called_from_claim h hd hg hb hclaim with hservice |
    ⟨inv, ix, l', call, hinv, -, -, hran, hframe⟩
  · exact h.below_service hc hj hd hservice
  · obtain ⟨a, hread, rfl⟩ := hran.calls
    obtain ⟨rest, haccounts⟩ := ClaimAccounts.read_eq.mp hread
    obtain ⟨b', hb', hkey⟩ := named hran.unchecked b (List.mem_of_getElem? hb) hclaim
    rw [← hinv.2, haccounts] at hb'
    cases hb'
    have hbridge : d.frame.programId = DOGE_BRIDGE_PROGRAM_ID := by
      rw [hframe]
      exact hkey
    have hdeposit : unpack d.frame.data = .ok (.processManualDeposit (ix.deposit a.user.key)) := by
      rw [hframe]
      exact unpack_manualDepositCall env inv a _
    obtain ⟨ix', inv', l'', es, hix, -, ha, e, he, hcall⟩ := called_from_bridge h hc hj hd hbridge
    rw [hdeposit] at hix
    cases hix
    rw [hcall]
    exact Accepted.quiet ha id e he

variable {mint account authority : AccountInfo} {cinv : Invocation} {l' : Ledger} {amount : UInt64}
  {es : List Effect}

/-- Only the bridge's own address can have the deposit of a claim minted. -/
theorem minted_by_pda {d : ProcessManualDepositInstructionData} {b : Borrows}
    (hp : inv.programId = DOGE_BRIDGE_PROGRAM_ID)
    (haccounts : inv.accounts = (manualDepositCall env cinv a d).accounts)
    (apart : a.bridgeState.key ≠ a.claimState.key) (hauthority : authority.key = a.bridgeState.key)
    (h : Called env inv b (mintToCall env inv mint account authority amount) l l') :
    a.bridgeState.key = BridgeEnv.pda env := by
  obtain ⟨-, -, granted, -⟩ := h
  have hsigner := (granted ⟨authority.key, true, false⟩ (by simp [mintToCall])).2.1 rfl
  rw [hauthority] at hsigner
  rcases hsigner with ⟨x, hx, hkey, hsigns⟩ | hpda
  · rw [haccounts] at hx
    simp only [manualDepositCall, List.mem_cons, List.not_mem_nil, or_false] at hx
    rcases hx with rfl | rfl | rfl | rfl | rfl
    case inr.inr.inr.inr => exact absurd hkey.symm apart
    all_goals cases hsigns
  · have hkey := (Option.some.inj hpda).symm
    rw [hp] at hkey
    exact hkey

theorem claim_signs (h : Accepted env inv l (.processManualDeposit deposit) l' es) :
    inv.signs (claimKey env deposit.depositorSolanaPublicKey) := by
  cases h with
  | processManualDeposit accounts signed claimPda =>
    refine ⟨_, ?_, claimPda, signed⟩
    rw [accounts]
    simp

/-- What a claim has the bridge mint is what it has verified. -/
theorem verified_of_claim {ix : ManualClaimInstruction} {call : Cpi} {l₂ : Ledger}
    (hd : tr[j]? = some d) (hp : d.frame.programId = MANUAL_CLAIM_PROGRAM_ID)
    (hcinv : d.frame.runsAs cinv)
    (hdata : d.frame.data.drop 8 = ManualClaimInstruction.pod.encode ix)
    (hran : ManualClaim.processInstruction env cinv d.before d.frame.data = .ok (l', call))
    (hclaim : ClaimAccepted env cinv d.before ix l' call)
    (hprogram : inv.programId = DOGE_BRIDGE_PROGRAM_ID) (haccounts : inv.accounts = call.accounts)
    (hix : unpack call.data = .ok (.processManualDeposit deposit))
    (accepted : Accepted env inv l (.processManualDeposit deposit) l₂ es)
    (minted : .call (mintToCall env inv mint account authority amount) ∈ es) :
    Verified env tr deposit account.key := by
  obtain @⟨a, l₃, l₄, _, state, bridge, hread, signed, pda, ata, created, hstate, apart, hbridge,
    verified, -, -, -, -, -⟩ := hclaim
  rw [unpack_manualDepositCall] at hix
  cases hix
  obtain ⟨rest, hlisted⟩ := ClaimAccounts.read_eq.mp hread
  have hkey : claimKey env a.user.key = a.claimState.key := by
    rw [← pda, ManualClaim.claimPda, hcinv.1, hp]
    rfl
  obtain ⟨hroot, hkept⟩ := stored_of_created (hcinv.1.trans hp) hkey created hstate
  cases accepted with
  | @processManualDeposit _ bs rec dm tp cs _ st core net l₅ _ accounts _ _ _ _ _ mintDeposit =>
    rw [accounts] at haccounts
    have hrecipient : account.key = a.recipient.key := by
      have hcall := congrArg Cpi.accounts (Effect.call.inj (List.mem_singleton.mp minted))
      simp only [mintToCall, List.cons.injEq, AccountInfo.mk.injEq] at hcall
      simp only [manualDepositCall, List.cons.injEq] at haccounts
      rw [hcall.2.1.1, haccounts.2.1]
    have hauthority : bs.key = a.bridgeState.key := by rw [(List.cons.inj haccounts).1]
    have hpda := minted_by_pda hprogram (accounts.trans haccounts) apart hauthority mintDeposit
    rw [hrecipient]
    refine .intro hd hp hcinv hdata hran ⟨a.user, ?_, rfl, signed⟩ hroot ?_ verified rfl rfl rfl
    · rw [← hcinv.2, hlisted]
      simp
    · rw [← hpda, ← hkept _ apart, hbridge]

end Claims

/-- If the claims of a transaction name the bridge as the program to call, then every manual
deposit that the bridge mints in it is one that was verified. Where borrows are checked, no claim
comes to a call, whatever it names. -/
theorem deposits_verified (h : Succeeded env tr)
    (howned : OwnedBy env.platform tr (claimKey env deposit.depositorSolanaPublicKey)
      MANUAL_CLAIM_PROGRAM_ID)
    (named : env.platform.checksBorrows = false → ∀ c ∈ tr,
      c.frame.programId = MANUAL_CLAIM_PROGRAM_ID → NamesBridge c.frame)
    (hm : Minted env tr deposit recipient) : Verified env tr deposit recipient := by
  have hservice : DOGE_BRIDGE_PROGRAM_ID ∉ servicePrograms := by decide
  obtain @⟨i, c, inv, l', es, mint, account, authority, amount, called, program, ran, decoded,
    accepted, minted, rfl⟩ := hm
  have hsigns := claim_signs accepted
  rw [Invocation.signs, ran.2] at hsigns
  rcases h.signature_confined howned (fun _ _ _ _ => below_claim h named) called hsigns with
    ⟨j, d, hj, hd, hclaim⟩ | hs
  · rcases called_from_claim h called hj hd hclaim with hs |
      ⟨cinv, ix, l₃, call, hinv, hdata, hran, hverified, hframe⟩
    · exact absurd (program ▸ hs) hservice
    · rw [hframe] at decoded
      have haccounts : inv.accounts = call.accounts := by rw [ran.2, hframe]; rfl
      exact verified_of_claim hd hclaim hinv hdata hran hverified (ran.1.trans program) haccounts
        decoded accepted minted
  · exact absurd (program ▸ hs) hservice

/-- Every manual deposit that the bridge mints is one that manual-claim has verified in the same
transaction. Where borrows are checked there is none: a claim is never accepted, and nothing else
gets the signature of the claim account. -/
theorem manual_deposits_verified (h : Succeeded env tr)
    (checks : env.platform.checksBorrows = true)
    (howned : OwnedBy env.platform tr (claimKey env deposit.depositorSolanaPublicKey)
      MANUAL_CLAIM_PROGRAM_ID) :
    (∀ recipient, Minted env tr deposit recipient → Verified env tr deposit recipient) ∧
      ∀ recipient, ¬ Minted env tr deposit recipient := by
  have hverified (recipient : Pubkey) (hm : Minted env tr deposit recipient) :
      Verified env tr deposit recipient := by
    refine deposits_verified h howned (fun hlax => ?_) hm
    rw [checks] at hlax
    cases hlax
  refine ⟨hverified, ?_⟩
  intro recipient hm
  obtain ⟨-, -, -, -, accepted, -⟩ := hverified recipient hm
  obtain ⟨-, _, -, haccepted⟩ := ManualClaim.processInstruction_ok.mp accepted
  have hlax := haccepted.unchecked
  rw [checks] at hlax
  cases hlax

section Samples

def relayCall : Call where
  frame := { withdrawalCall.frame with programId := strangerKey }
  caller := none
  seeds := []
  before := withdrawalLedger cluster

/-- A stranger's program passes a withdrawal on to the bridge. -/
def relayedTrace : List Call :=
  [relayCall, { withdrawalCall with caller := some 0 }, { messageCall with caller := some 1 }]

theorem relayed_linked : Linked cluster.platform relayCall 0
    [{ withdrawalCall with caller := some 0 }, { messageCall with caller := some 1 }] :=
  ⟨rfl, fun _ hk => .inl hk, rfl, announced_linked.2.1, trivial⟩

theorem relayed_succeeded : Succeeded cluster relayedTrace := by
  have hbounded := withdrawalLedger_bounded cluster
  refine .of_linked rfl relayed_linked ⟨ran_foreign ?_, ?_, ?_, trivial⟩ ?_
  · change strangerKey ∉ knownPrograms
    decide
  · dsimp only [List.head?_cons, Option.map_some, Option.toList_some]
    exact withdrawalCall_ran
  · dsimp only [List.head?_nil, Option.map_none, Option.toList_none]
    exact messageCall_ran
  · simp only [List.forall_mem_cons]
    exact ⟨hbounded, hbounded, hbounded, List.forall_mem_nil _⟩

theorem relayed_owned : OwnedBy cluster.platform relayedTrace claimStateKey
    MANUAL_CLAIM_PROGRAM_ID := by
  have hoperator : operatorKey ≠ claimStateKey := by decide
  have hbridge : bridgeState ≠ claimStateKey := by decide
  constructor
  · intro c hc hnone
    obtain rfl := relayed_linked.top hc hnone
    rintro ⟨a, ha, hkey, hsigner⟩
    exact hoperator ((withdrawalInvocation_signer ha hsigner).symm.trans hkey)
  · intro i c j d hc hj hd s hs hderived
    have hmem := relayed_linked.neighbours rfl hc hj hd
    simp only [List.zip_cons_cons, List.zip_nil_right, List.mem_cons, List.not_mem_nil, or_false,
      Prod.mk.injEq] at hmem
    rcases hmem with ⟨rfl, rfl⟩ | ⟨rfl, rfl⟩
    · cases hs
    · rw [List.mem_singleton.mp hs] at hderived
      exact absurd (Option.some.inj (bridgeState_created.symm.trans hderived)) hbridge

/-- The transaction goes through, and mints no manual deposit. -/
theorem relayed_withdrawal_verified :
    Succeeded cluster relayedTrace ∧ cluster.platform.checksBorrows = true ∧
      ∀ recipient, ¬ Minted cluster relayedTrace (sampleClaim.deposit operatorKey) recipient := by
  refine ⟨relayed_succeeded, rfl, (manual_deposits_verified relayed_succeeded rfl ?_).2⟩
  rw [show (sampleClaim.deposit operatorKey).depositorSolanaPublicKey = operatorKey from rfl,
    claimStateKey_derived]
  exact relayed_owned

end Samples

end VerifiedDeposits
