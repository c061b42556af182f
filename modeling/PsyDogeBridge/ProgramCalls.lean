import PsyDogeBridge.CallTrace
import PsyDogeBridge.ManualClaim
import PsyDogeBridge.SignedCalls

/-! Transactions that call the programs of the bridge, from any other program. Where does a
signature of a derived address go? -/
namespace ProgramCalls

open SolanaRuntime BridgeData BridgeCalls BridgeProcessor AcceptedInstructions BridgeSystem
  SignedCalls CallTrace

variable {env : BridgeEnv} {tr : List Call} {i j : ℕ} {c d : Call} {owner k : Pubkey}

structure Ran (env : BridgeEnv) (f : Frame) (l : Ledger) (calls : List Frame) : Prop where
  bridge : f.programId = DOGE_BRIDGE_PROGRAM_ID →
    ∃ inv l' es, f.runsAs inv ∧ processInstruction env inv l f.data = .ok (l', es) ∧
      calls = es.map fun e => .ofCpi e.cpi
  claim : f.programId = MANUAL_CLAIM_PROGRAM_ID →
    ∃ inv l' cpi, f.runsAs inv ∧ ManualClaim.processInstruction env inv l f.data = .ok (l', cpi) ∧
      ∀ g ∈ calls, g = .ofCpi cpi ∨ g.programId = SYSTEM_PROGRAM_ID
  shim : f.programId = NOOP_SHIM_PROGRAM_ID →
    noopShim env.platform f.accounts = .ok () ∧ calls = []
  buffer : f.programId = PENDING_MINT_BUFFER_BUILDER_PROGRAM_ID →
    ∀ g ∈ calls, g.programId = SYSTEM_PROGRAM_ID
  leaf : f.programId = TOKEN_PROGRAM_ID ∨ f.programId = SYSTEM_PROGRAM_ID → calls = []

structure Succeeded (env : BridgeEnv) (tr : List Call) : Prop where
  dispatched : Dispatched env.platform tr
  ran : ∀ (i : ℕ) (c : Call), tr[i]? = some c → Ran env c.frame c.before (calledBy tr i)
  bounded : ∀ c ∈ tr, ∀ k, (c.before k).data.length ≤ MAX_PERMITTED_DATA_LENGTH

/-- The address belongs to one program: no one can sign for it at the top level, and no other
program in this transaction derives it. -/
structure OwnedBy (p : Platform) (tr : List Call) (k owner : Pubkey) : Prop where
  top : ∀ c ∈ tr, c.caller = none → ¬ c.frame.signs k
  derived : ∀ (i : ℕ) (c : Call) (j : ℕ) (d : Call), tr[i]? = some c → c.caller = some j →
    tr[j]? = some d → ∀ s ∈ c.seeds, p.createProgramAddress s d.frame.programId = some k →
    d.frame.programId = owner

def CalledFrom (tr : List Call) (owner : Pubkey) (c : Call) : Prop :=
  ∃ (j : ℕ) (d : Call), c.caller = some j ∧ tr[j]? = some d ∧ d.frame.programId = owner

theorem Succeeded.below_service (h : Succeeded env tr) (hc : tr[i]? = some c)
    (hj : c.caller = some j) (hd : tr[j]? = some d) (hs : d.frame.programId ∈ servicePrograms) :
    c.frame.programId ∈ servicePrograms := by
  have hmem := mem_calledBy hc hj
  have hran := h.ran j d hd
  simp only [servicePrograms, List.mem_cons, List.not_mem_nil, or_false] at hs
  rcases hs with hs | hs | hs
  · rw [hran.leaf (.inl hs)] at hmem
    cases hmem
  · rw [hran.buffer hs _ hmem]
    exact system_service
  · rw [hran.leaf (.inr hs)] at hmem
    cases hmem

/-- A signature of the owner's address is only seen by what the owner calls, and by service
programs, if what the owner calls passes it on to no others. -/
theorem Succeeded.signature_confined (h : Succeeded env tr) (hk : OwnedBy env.platform tr k owner)
    (hnext : ∀ (i : ℕ) (c : Call) (j : ℕ) (d : Call), tr[i]? = some c → c.caller = some j →
      tr[j]? = some d → CalledFrom tr owner d → c.frame.programId ∈ servicePrograms)
    (hc : tr[i]? = some c) (hsigns : c.frame.signs k) :
    CalledFrom tr owner c ∨ c.frame.programId ∈ servicePrograms := by
  refine h.dispatched.signer_induction
    (P := fun _ c => CalledFrom tr owner c ∨ c.frame.programId ∈ servicePrograms) ?_ ?_ ?_ hc hsigns
  · intro i c hc hs hnone
    exact absurd hs (hk.top c (List.mem_of_getElem? hc) hnone)
  · intro i c j d hc hj hd s hs hderived
    exact .inl ⟨j, d, hj, hd, hk.derived i c j d hc hj hd s hs hderived⟩
  · intro i c j d hc hj hd ih
    rcases ih with hfrom | hservice
    · exact .inr (hnext i c j d hc hj hd hfrom)
    · exact .inr (h.below_service hc hj hd hservice)

/-- An instruction that posts a message posts it to the noop shim. -/
def NamesNoopShim (f : Frame) : Prop :=
  ∀ ix, unpack f.data = .ok ix → postsMessage ix →
    ∃ a, f.accounts[2]? = some a ∧ a.key = NOOP_SHIM_PROGRAM_ID

/-- What the bridge calls: a service program, or the shim with a message. -/
theorem called_from_bridge (h : Succeeded env tr) (hc : tr[i]? = some c) (hj : c.caller = some j)
    (hd : tr[j]? = some d) (hbridge : d.frame.programId = DOGE_BRIDGE_PROGRAM_ID) :
    ∃ ix inv l' es, unpack d.frame.data = .ok ix ∧ d.frame.runsAs inv ∧
      Accepted env inv d.before ix l' es ∧ ∃ e ∈ es, c.frame = .ofCpi e.cpi := by
  obtain ⟨inv, l', es, hinv, hran, hcalls⟩ := (h.ran j d hd).bridge hbridge
  have hmem := mem_calledBy hc hj
  rw [hcalls] at hmem
  obtain ⟨e, he, hframe⟩ := List.mem_map.mp hmem
  obtain ⟨ix, hix, ha⟩ := processInstruction_ok.mp hran
  exact ⟨ix, inv, l', es, hix, hinv, ha, e, he, hframe.symm⟩

theorem signed_shim_call (h : Succeeded env tr)
    (howned : OwnedBy env.platform tr (env.bridgePda DOGE_BRIDGE_PROGRAM_ID) DOGE_BRIDGE_PROGRAM_ID)
    (hshim : ∀ c ∈ tr, c.frame.programId = DOGE_BRIDGE_PROGRAM_ID → NamesNoopShim c.frame)
    (hc : tr[i]? = some c) (hp : c.frame.programId = NOOP_SHIM_PROGRAM_ID)
    (hk : c.frame.signs (env.bridgePda DOGE_BRIDGE_PROGRAM_ID)) :
    ∃ (j : ℕ) (d : Call), c.caller = some j ∧ tr[j]? = some d ∧
      d.frame.programId = DOGE_BRIDGE_PROGRAM_ID ∧ ∃ ix inv l' es,
        unpack d.frame.data = .ok ix ∧ postsMessage ix ∧ d.frame.runsAs inv ∧
        Accepted env inv d.before ix l' es ∧ ∃ e ∈ es, c.frame = .ofCpi e.cpi := by
  have hservice : NOOP_SHIM_PROGRAM_ID ∉ servicePrograms := by decide
  have hnext : ∀ (i : ℕ) (c : Call) (j : ℕ) (d : Call), tr[i]? = some c → c.caller = some j →
      tr[j]? = some d → CalledFrom tr DOGE_BRIDGE_PROGRAM_ID d →
      c.frame.programId ∈ servicePrograms := by
    rintro i c j d hc hj hd ⟨g, b, hg, hb, hbridge⟩
    obtain ⟨ix, inv, l', es, hix, hinv, ha, e, he, hframe⟩ := called_from_bridge h hd hg hb hbridge
    by_cases hposts : postsMessage ix
    · obtain ⟨_, shim, _, _, _, _, _, hlisted, -, -, post⟩ := Accepted.message ha hposts
      obtain ⟨a, hacc, hkey⟩ := hshim b (List.mem_of_getElem? hb) hbridge ix hix hposts
      rw [hinv.2, hacc] at hlisted
      have hprogram : d.frame.programId = NOOP_SHIM_PROGRAM_ID := by
        rw [hframe, posted_effects post e he, ← hkey, Option.some.inj hlisted]
        rfl
      have hmem := mem_calledBy hc hj
      rw [((h.ran j d hd).shim hprogram).2] at hmem
      cases hmem
    · apply h.below_service hc hj hd
      rw [hframe]
      exact Accepted.quiet ha hposts e he
  rcases h.signature_confined howned hnext hc hk with ⟨j, d, hj, hd, hbridge⟩ | hs
  · obtain ⟨ix, inv, l', es, hix, hinv, ha, e, he, hframe⟩ := called_from_bridge h hc hj hd hbridge
    refine ⟨j, d, hj, hd, hbridge, ix, inv, l', es, hix, ?_, hinv, ha, e, he, hframe⟩
    by_contra hposts
    apply hservice
    rw [← hp, hframe]
    exact Accepted.quiet ha hposts e he
  · exact absurd (hp ▸ hs) hservice

section Linear

variable {cs : List Call}

/-- Each program accepts its call and makes the next one. -/
def RanInTurn (env : BridgeEnv) : List Call → Prop
  | [] => True
  | c :: cs => Ran env c.frame c.before (cs.head?.map Call.frame).toList ∧ RanInTurn env cs

theorem RanInTurn.get (h : RanInTurn env tr) (hc : tr[i]? = some c) :
    Ran env c.frame c.before (tr[i + 1]?.map Call.frame).toList := by
  induction tr generalizing i with
  | nil => cases hc
  | cons b tr ih =>
    cases i with
    | zero =>
      cases hc
      rw [List.getElem?_cons_succ, ← List.head?_eq_getElem?]
      exact h.1
    | succ i => exact ih h.2 hc

theorem Succeeded.of_linked (hfirst : d.caller = none) (hlinked : Linked env.platform d 0 cs)
    (hran : RanInTurn env (d :: cs))
    (hbounded : ∀ c ∈ d :: cs, ∀ k, (c.before k).data.length ≤ MAX_PERMITTED_DATA_LENGTH) :
    Succeeded env (d :: cs) := by
  refine ⟨hlinked.dispatched hfirst, ?_, hbounded⟩
  intro i c hc
  rw [hlinked.calledBy_eq hfirst]
  exact hran.get hc

end Linear

section Accepted

variable {f : Frame} {l l' : Ledger} {inv : Invocation} {calls : List Frame}

def knownPrograms : List Pubkey :=
  [DOGE_BRIDGE_PROGRAM_ID, MANUAL_CLAIM_PROGRAM_ID, NOOP_SHIM_PROGRAM_ID,
    PENDING_MINT_BUFFER_BUILDER_PROGRAM_ID, TOKEN_PROGRAM_ID, SYSTEM_PROGRAM_ID]

theorem ran_foreign (hf : f.programId ∉ knownPrograms) : Ran env f l calls := by
  simp only [knownPrograms, List.mem_cons, List.not_mem_nil, or_false, not_or] at hf
  obtain ⟨hbridge, hclaim, hshim, hbuffer, htoken, hsystem⟩ := hf
  exact ⟨fun h => absurd h hbridge, fun h => absurd h hclaim, fun h => absurd h hshim,
    fun h => absurd h hbuffer, fun h => absurd h (not_or.mpr ⟨htoken, hsystem⟩)⟩

theorem ran_bridge {es : List Effect} (hf : f.programId = DOGE_BRIDGE_PROGRAM_ID)
    (hinv : f.runsAs inv) (hran : processInstruction env inv l f.data = .ok (l', es))
    (hcalls : calls = es.map fun e => .ofCpi e.cpi) : Ran env f l calls := by
  refine ⟨fun _ => ⟨inv, l', es, hinv, hran, hcalls⟩, ?_, ?_, ?_, ?_⟩
  all_goals
    intro h
    rw [hf] at h
    exact absurd h (by decide)

theorem ran_shim (hf : f.programId = NOOP_SHIM_PROGRAM_ID)
    (hran : noopShim env.platform f.accounts = .ok ()) : Ran env f l [] := by
  refine ⟨?_, ?_, fun _ => ⟨hran, rfl⟩, fun _ => List.forall_mem_nil _, fun _ => rfl⟩
  all_goals
    intro h
    rw [hf] at h
    exact absurd h (by decide)

end Accepted

section Samples

open ProgramState InstructionCodec LocalCluster

def withdrawalCall : Call where
  frame := .ofInvocation (withdrawalInvocation cluster NOOP_SHIM_PROGRAM_ID operatorKey txBuffer)
    (instructionData (.processWithdrawal (withdrawalData cluster [1, 2, 3])))
  caller := none
  seeds := []
  before := withdrawalLedger cluster

def messageCall : Call where
  frame := .ofCpi announced
  caller := some 0
  seeds := [[BRIDGE_STATE_SEED, [255]]]
  before := withdrawalLedger cluster

theorem announced_accounts : announced.accounts = shimMetas cluster operatorKey :=
  announcement_accounts ..

theorem bridgeState_created : cluster.platform.createProgramAddress [BRIDGE_STATE_SEED, [255]]
    DOGE_BRIDGE_PROGRAM_ID = some bridgeState := by decide +kernel

theorem announced_linked : Linked cluster.platform withdrawalCall 0 [messageCall] := by
  refine ⟨rfl, ?_, trivial⟩
  rintro k ⟨a, ha, rfl, hsigner⟩
  have hmem : a ∈ announced.accounts := ha
  rw [announced_accounts] at hmem
  rcases shimMetas_key hmem with hkey | hkey
  · left
    rw [hkey]
    exact ⟨⟨operatorKey, true, true⟩, List.mem_cons_of_mem _ (List.mem_cons_of_mem _
      (List.mem_cons_of_mem _ List.mem_cons_self)), rfl, rfl⟩
  · right
    rw [hkey, cluster_pda]
    exact ⟨_, List.mem_cons_self, bridgeState_created⟩

theorem withdrawalCall_ran :
    Ran cluster withdrawalCall.frame withdrawalCall.before [messageCall.frame] := by
  obtain ⟨l', hran⟩ := announced_ran
  simp only [withdrawalCall, messageCall]
  exact ran_bridge rfl ⟨rfl, rfl⟩ hran rfl

theorem messageCall_ran : Ran cluster messageCall.frame messageCall.before [] := by
  apply ran_shim rfl
  change noopShim _ announced.accounts = _
  rw [announced_accounts]
  exact noopShim_accepts ..

theorem withdrawalLedger_bounded (env : BridgeEnv) (k : Pubkey) :
    (withdrawalLedger env k).data.length ≤ MAX_PERMITTED_DATA_LENGTH := by
  unfold withdrawalLedger emptyLedger
  rw [Function.update_apply, Function.update_apply]
  split
  · exact (BridgeState.pod.encode_length _).trans_le (by decide)
  · split
    · decide
    · decide

theorem announced_succeeded : Succeeded cluster [withdrawalCall, messageCall] :=
  .of_linked rfl announced_linked ⟨withdrawalCall_ran, messageCall_ran, trivial⟩
    (List.forall_mem_cons.mpr ⟨withdrawalLedger_bounded cluster,
      List.forall_mem_singleton.mpr (withdrawalLedger_bounded cluster)⟩)

theorem withdrawalInvocation_signer {shim payer buffer : Pubkey} {a : AccountInfo}
    (h : a ∈ (withdrawalInvocation env shim payer buffer).accounts) (hs : a.isSigner = true) :
    a.key = payer := by
  simp only [withdrawalInvocation, List.mem_cons] at h
  rcases h with rfl | rfl | rfl | h
  case inr.inr.inr => rw [List.eq_of_mem_replicate h]
  all_goals cases hs

end Samples

end ProgramCalls
