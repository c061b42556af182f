import PsyDogeBridge.BufferLocks

/-! Which steps change the backlog of the bridge: block updates, reorganisations and mints of a
group on the bridge's own state account. -/
namespace BacklogSteps

open SolanaRuntime BridgeData MintGroups PendingMintsTracker ProgramState BlockTransition
  TransitionFacts BridgeCalls BridgeProcessor AcceptedInstructions BridgeSystem BufferSteps
  StateHistory SignedCalls BufferLocks

variable {env : BridgeEnv} {inv : Invocation} {l l' : Ledger} {k : Pubkey} {ix : BridgeInstruction}
  {es : List Effect} {st : BridgeState} {core : PsyBridgeProgramState}

section Updates

variable {fixed : BlockUpdateFixedData} {extra : List FinalizedBlockMintTxoInfo} {isReorg : Bool}
  {buffer : Pubkey}

def autoClaimIndex (s : PsyBridgeProgramState) : UInt32 :=
  s.bridgeHeader.finalizedState.autoClaimedDepositsNextIndex

theorem newAutoClaims_eq_zero {s : PsyBridgeProgramState} {header : PsyBridgeHeader} :
    newAutoClaims s header = 0 ↔
      autoClaimIndex s = header.finalizedState.autoClaimedDepositsNextIndex := by
  unfold newAutoClaims autoClaimIndex
  constructor
  · intro h
    rw [← UInt32.sub_add_cancel header.finalizedState.autoClaimedDepositsNextIndex
      s.bridgeHeader.finalizedState.autoClaimedDepositsNextIndex, h, UInt32.zero_add]
  · intro h
    rw [h, UInt32.sub_self]

/-- A block update of the bridge: the buffer is locked, the state is rewritten, and the buffer
is unlocked again if the index did not move. -/
inductive UpdatedOn (env : BridgeEnv) (l : Ledger) (st : BridgeState) (fixed : BlockUpdateFixedData)
    (extra : List FinalizedBlockMintTxoInfo) (isReorg : Bool) (buffer : Pubkey)
    (core : PsyBridgeProgramState) : Ledger → Prop where
  | intro {l₁ l' txos} (apart : buffer ≠ BridgeEnv.pda env)
      (lock : Locks (BridgeEnv.pda env) l l₁ buffer)
      (run : runTransition env l₁ st fixed.proof fixed.header extra (BridgeEnv.pda env) buffer txos
        isReorg = .ok core)
      (unlock : if autoClaimIndex st.coreState = autoClaimIndex core then
          Unlocks (BridgeEnv.pda env) (install env l₁ { st with coreState := core }) l' buffer
        else l' = install env l₁ { st with coreState := core }) :
      UpdatedOn env l st fixed extra isReorg buffer core l'

theorem blockUpdated_on {mintBump txoBump : UInt8} {a : AccountInfo} {rest : List AccountInfo}
    (hs : Holds env l st) (ha : inv.accounts = a :: rest) (hpda : a.key = BridgeEnv.pda env)
    (h : BlockUpdated env inv l fixed extra mintBump txoBump isReorg l' es) :
    ∃ buffer core, inv.accounts[1]? = some buffer ∧
      UpdatedOn env l st fixed extra isReorg buffer.key core l' := by
  obtain @⟨bridge, mintBuffer, txoBuffer, _, _, _, _, _, st₀, core, l₁, l₂, _, locked, unlocked,
    ha', -, -, -, -, hlock, hread, -, ⟨hd, -⟩, hrun, hwrite, hunlock⟩ := h
  have hget : inv.accounts[1]? = some mintBuffer := by
    rw [ha']
    rfl
  rw [ha] at ha'
  cases ha'
  have hlocks := locks_of_calledIf hlock
  rw [hpda] at hlocks hd hread hrun hwrite
  have hs₁ : Holds env l₁ st := (hlocks.elsewhere hd.symm).trans hs
  have hst : st₀ = st := by
    apply BridgeState.pod.encode_injective
    rw [← hread, show l₁ (BridgeEnv.pda env) = _ from hs₁]
  subst hst
  obtain ⟨-, rfl⟩ := writeState_ok.mp hwrite
  rw [Holds.setData_eq_install hs₁] at hunlock
  change CalledIf env inv (decide (autoClaimIndex st₀.coreState = autoClaimIndex core)) _ _ _ _
    at hunlock
  refine ⟨mintBuffer, core, hget, .intro hd hlocks hrun ?_⟩
  by_cases hidx : autoClaimIndex st₀.coreState = autoClaimIndex core
  · rw [if_pos hidx]
    rw [decide_eq_true hidx] at hunlock
    exact hpda ▸ unlocks_of_calledIf hunlock
  · rw [if_neg hidx]
    rw [decide_eq_false hidx] at hunlock
    exact congrArg Prod.fst hunlock

section

variable (h : UpdatedOn env l st fixed extra isReorg buffer core l')
include h

theorem UpdatedOn.holds :
    Holds env l' { st with coreState := core } := by
  obtain ⟨apart, lock, run, unlock⟩ := h
  split at unlock
  · exact (unlock.elsewhere apart.symm).trans (install_holds _ _ _)
  · rw [unlock]
    exact install_holds _ _ _

theorem UpdatedOn.elsewhere (hk : k ≠ BridgeEnv.pda env) (hne : k ≠ buffer) : l' k = l k := by
  obtain ⟨apart, lock, run, unlock⟩ := h
  split at unlock
  · rw [unlock.elsewhere hne, install_of_ne hk, lock.elsewhere hne]
  · rw [unlock, install_of_ne hk, lock.elsewhere hne]

theorem UpdatedOn.lockedFor (hidx : autoClaimIndex st.coreState ≠ autoClaimIndex core) :
    LockedFor (BridgeEnv.pda env) (l' buffer) := by
  obtain ⟨apart, lock, run, unlock⟩ := h
  rw [if_neg hidx] at unlock
  rw [unlock, install_of_ne apart]
  exact lock.lockedFor

theorem UpdatedOn.unlocked (hidx : autoClaimIndex st.coreState = autoClaimIndex core) :
    (mintBufferHeader (l' buffer).data).isLocked = 0 := by
  obtain ⟨apart, lock, run, unlock⟩ := h
  rw [if_pos hidx] at unlock
  exact unlock.unlocked

theorem UpdatedOn.frozen (hs : Holds env l st) : Frozen (BridgeEnv.pda env) l l' := by
  intro k hk
  refine h.elsewhere (hk.ne_pda hs) ?_
  intro heq
  obtain ⟨-, lock, -, -⟩ := h
  exact hk.locked (heq ▸ lock.unlocked)

end

end Updates

section Mints

variable {g : UInt16}

theorem Holds.read_eq {st₀ : BridgeState} (hs : Holds env l st) (hk : k = BridgeEnv.pda env)
    (hread : (l k).data = BridgeState.pod.encode st₀) : st₀ = st := by
  apply BridgeState.pod.encode_injective
  rw [← hread, hk, show l (BridgeEnv.pda env) = _ from hs]

def mintsGroup : BridgeInstruction → Option UInt16
  | .processMintGroup g _ _ => some g
  | .processMintGroupAutoAdvance g _ _ _ => some g
  | _ => none

/-- A group is claimed either from the current block or, if there is none, from the next one. -/
inductive GroupStart (env : BridgeEnv) (l : Ledger) (s : PsyBridgeProgramState) (buffer : Pubkey) :
    Bool → PsyBridgeProgramState → Prop where
  | current : GroupStart env l s buffer false s
  | advance {txos s₁} (apart : buffer ≠ BridgeEnv.pda env)
      (setup : runSetupNextPendingBuffer env.crypto s (BridgeEnv.pda env) buffer (l txos).data
        (l buffer).data = .ok s₁) : GroupStart env l s buffer true s₁

inductive MintsOn (env : BridgeEnv) (inv : Invocation) (l : Ledger) (st : BridgeState) (g : UInt16)
    (core : PsyBridgeProgramState) (l' : Ledger) (es : List Effect) : Prop where
  | intro {bridgeState buffer dogeMint recipients jit core₁ claim}
      (pda : bridgeState.key = BridgeEnv.pda env)
      (start : GroupStart env l st.coreState buffer.key jit core₁)
      (claims : ClaimsGroup core₁ g buffer.key core claim)
      (group : GroupMinted env inv (install env l { st with coreState := core }) bridgeState buffer
        dogeMint recipients claim jit claim.canUnlock l' es)

theorem claimed_account {s s' : PsyBridgeProgramState} {account : Vector UInt8 32}
    {claim : GroupClaim} (h : ClaimsGroup s g account s' claim) :
    s'.tracker.lastFinalizedAutoClaimMintsStorageAccount = account := by
  rw [h.state]
  exact h.buffer.symm

theorem Accepted.mintsOn {a : AccountInfo} {rest : List AccountInfo} (hs : Holds env l st)
    (ha : inv.accounts = a :: rest) (hpda : a.key = BridgeEnv.pda env)
    (hix : mintsGroup ix = some g) (h : Accepted env inv l ix l' es) :
    ∃ core, MintsOn env inv l st g core l' es ∧ ∃ buffer rest', rest = buffer :: rest' ∧
      core.tracker.lastFinalizedAutoClaimMintsStorageAccount = buffer.key := by
  have written {st₀ : BridgeState} {l₁ : Ledger} (write : writeState inv l a.key st₀ = .ok l₁) :
      l₁ = install env l st₀ := by
    obtain ⟨-, rfl⟩ := writeState_ok.mp write
    rw [hpda]
    exact Holds.setData_eq_install hs
  cases h with
  | processMintGroup accounts _ read buffer _ _ run agree write group =>
    cases hix
    rw [ha] at accounts
    cases accounts
    obtain rfl := Holds.read_eq hs hpda read
    rw [written write, ← agree] at group
    have hclaims := runAutoMintGroupPrecheck_ok.mp run
    exact ⟨_, .intro hpda .current hclaims group, _, _, rfl, claimed_account hclaims⟩
  | @processMintGroupAutoAdvance _ _ _ _ _ _ _ _ _ _ _ _ _ _ _ jit _ _ _ _ _ _ accounts _ read _
      setup buffer run agree write group =>
    cases hix
    rw [ha] at accounts
    cases accounts
    obtain rfl := Holds.read_eq hs hpda read
    rw [written write, ← agree] at group
    have hclaims := runAutoMintGroupPrecheck_ok.mp run
    cases jit with
    | true =>
      obtain ⟨-, -, ⟨-, hapart⟩, hsetup⟩ := advanceIf_true.mp setup
      rw [hpda] at hapart hsetup
      exact ⟨_, .intro hpda (.advance hapart hsetup) hclaims group, _, _, rfl,
        claimed_account hclaims⟩
    | false =>
      rw [advanceIf_false.mp setup] at hclaims
      exact ⟨_, .intro hpda .current hclaims group, _, _, rfl, claimed_account hclaims⟩
  | _ => cases hix

theorem MintsOn.holds (hg : Guarded env.platform) (h : MintsOn env inv l st g core l' es) :
    Holds env l' { st with coreState := core } := by
  obtain ⟨-, -, -, group⟩ := h
  exact Untouched.holds (groupMinted_untouched hg group) (install_holds _ _ _)

end Mints

section Steps

variable {e : Event} {st' : BridgeState}

theorem StateStep.backlog_kept (h : StateStep env ix st st')
    (hix : ¬ movesBacklog ix) : st'.coreState.pendingMintTxos = st.coreState.pendingMintTxos := by
  cases h with
  | requestWithdrawal run =>
    obtain ⟨_, -, -, -, rfl⟩ := PsyBridgeProgramState.processRequestWithdrawal_some.mp run
    rfl
  | processWithdrawal run =>
    obtain ⟨-, -, rfl, -⟩ := PsyBridgeProgramState.runProcessBridgeWithdrawal_ok.mp run
    rfl
  | operatorWithdrawFees run =>
    obtain ⟨-, -, rfl⟩ := PsyBridgeProgramState.runBridgeOperatorWithdrawFeesPrecheck_ok.mp run
    rfl
  | processManualDeposit run =>
    obtain ⟨-, -, _, -, -, -, rfl, -⟩ := PsyBridgeProgramState.processManualClaimedDeposit_ok.mp run
    rfl
  | replayWithdrawal run =>
    obtain ⟨-, -, rfl⟩ := PsyBridgeProgramState.processReplayWithdrawalProof_ok.mp run
    rfl
  | snapshotWithdrawals => rfl
  | _ => exact absurd trivial hix

def updatesBlocks : BridgeInstruction → Prop
  | .blockUpdate .. | .processReorgBlocks .. => True
  | _ => False

theorem movesBacklog_of_updates (h : updatesBlocks ix) :
    movesBacklog ix := by
  cases ix with
  | blockUpdate => trivial
  | processReorgBlocks => trivial
  | _ => exact False.elim h

def quietShim (env : BridgeEnv) : Event → Prop
  | .bridge call => QuietShim env call.inv call.ix
  | _ => True

theorem not_updates_of_mints {g : UInt16} (h : mintsGroup ix = some g) : ¬ updatesBlocks ix := by
  cases ix with
  | blockUpdate => cases h
  | processReorgBlocks => cases h
  | _ => exact id

/-- The event is no instruction that changes the backlog of the bridge. -/
def still (env : BridgeEnv) (e : Event) : Prop :=
  ∀ call, e = .bridge call → call.on (BridgeEnv.pda env) → ¬ movesBacklog call.ix

inductive BacklogStep (env : BridgeEnv) (l : Ledger) (st : BridgeState) (l' : Ledger) :
    Event → BridgeState → Prop where
  | kept {e : Event} {st' : BridgeState} (still : still env e)
      (same : st'.coreState.pendingMintTxos = st.coreState.pendingMintTxos) :
      BacklogStep env l st l' e st'
  | blockUpdate {inv fixed mintBump txoBump effects buffer core}
      (on : onAccount inv (BridgeEnv.pda env)) (account : inv.accounts[1]? = some buffer)
      (update : UpdatedOn env l st fixed [] false buffer.key core l') :
      BacklogStep env l st l'
        (.bridge ⟨inv, .blockUpdate fixed mintBump txoBump, effects, l, l'⟩)
        { st with coreState := core }
  | reorg {inv fixed extra mintBump txoBump effects buffer core}
      (on : onAccount inv (BridgeEnv.pda env)) (account : inv.accounts[1]? = some buffer)
      (update : UpdatedOn env l st fixed extra true buffer.key core l') :
      BacklogStep env l st l'
        (.bridge ⟨inv, .processReorgBlocks fixed extra mintBump txoBump, effects, l, l'⟩)
        { st with coreState := core }
  | mints {inv ix effects g core} (on : onAccount inv (BridgeEnv.pda env))
      (group : mintsGroup ix = some g) (mints : MintsOn env inv l st g core l' effects) :
      BacklogStep env l st l' (.bridge ⟨inv, ix, effects, l, l'⟩) { st with coreState := core }

theorem Accepted.backlogStep {a : AccountInfo} {rest : List AccountInfo} (hg : Guarded env.platform)
    (ha : inv.accounts = a :: rest) (hpda : a.key = BridgeEnv.pda env) (hix : movesBacklog ix)
    (hinit : ∀ params, ix ≠ .initializeBridge params) (hs : Holds env l st)
    (h : Accepted env inv l ix l' es) :
    ∃ st', Holds env l' st' ∧ BacklogStep env l st l' (.bridge ⟨inv, ix, es, l, l'⟩) st' := by
  cases ix with
  | initializeBridge params => exact absurd rfl (hinit params)
  | blockUpdate =>
    cases h with
    | blockUpdate run =>
      obtain ⟨buffer, core, hget, hon⟩ := blockUpdated_on hs ha hpda run
      exact ⟨_, hon.holds, .blockUpdate ⟨a, rest, ha, hpda⟩ hget hon⟩
  | processReorgBlocks =>
    cases h with
    | processReorgBlocks run =>
      obtain ⟨buffer, core, hget, hon⟩ := blockUpdated_on hs ha hpda run
      exact ⟨_, hon.holds, .reorg ⟨a, rest, ha, hpda⟩ hget hon⟩
  | processMintGroup g _ _ =>
    obtain ⟨core, hmints, -⟩ := Accepted.mintsOn hs ha hpda rfl h
    exact ⟨_, MintsOn.holds hg hmints, .mints ⟨a, rest, ha, hpda⟩ rfl hmints⟩
  | processMintGroupAutoAdvance g _ _ _ =>
    obtain ⟨core, hmints, -⟩ := Accepted.mintsOn hs ha hpda rfl h
    exact ⟨_, MintsOn.holds hg hmints, .mints ⟨a, rest, ha, hpda⟩ rfl hmints⟩
  | _ => exact hix.elim

/-- Every step keeps the backlog or is one of the four instructions that change it. -/
theorem Step.backlogStep (hg : Guarded env.platform) (hinit : ¬ isInitialize e)
    (hs : Holds env l st) (h : Step env l e l') :
    ∃ st', Holds env l' st' ∧ BacklogStep env l st l' e st' := by
  by_cases hstill : still env e
  · obtain ⟨st', hs', rfl | ⟨call, rfl, hon, hstep⟩⟩ := h.holds hg hs
    · exact ⟨_, hs', .kept hstill rfl⟩
    · exact ⟨_, hs', .kept hstill (StateStep.backlog_kept hstep (hstill call rfl hon))⟩
  · simp only [still, not_forall, not_not] at hstill
    obtain ⟨call, rfl, ⟨a, rest, ha, hpda⟩, hix⟩ := hstill
    obtain ⟨hbefore, hafter, -, haccepted⟩ := h.accepted
    obtain ⟨inv, ix, effects, before, after⟩ := call
    obtain rfl := hbefore
    obtain rfl := hafter
    refine Accepted.backlogStep hg ha hpda hix ?_ hs haccepted
    intro params hparams
    subst hparams
    exact hinit trivial

theorem Step.frozen (hg : Guarded env.platform) (htoken : Harmless env TOKEN_PROGRAM_ID)
    (hz : BridgeEnv.pda env ≠ zeroBytes) (hquiet : quietShim env e) (hstill : still env e)
    (h : Step env l e l') : Frozen (BridgeEnv.pda env) l l' := by
  cases h with
  | @bridge inv _ ix effects _ _ program decoded ran =>
    obtain ⟨-, -, -, ha⟩ := Step.accepted (.bridge program decoded ran)
    obtain ⟨a, rest, accounts⟩ := Accepted.first hg program ha
    by_cases hpda : a.key = BridgeEnv.pda env
    · have hix := hstill _ rfl ⟨a, rest, accounts, hpda⟩
      exact Untouched.frozen (Accepted.leavesBuffers htoken program hquiet hix ha)
    · exact (Accepted.acts htoken program hquiet accounts ha).frozen hpda
  | buffer program unsigned ran =>
    obtain ⟨storage, rest, -, he⟩ := BufferSteps.processInstruction_effect ran
    exact Effect.frozen hz unsigned he
  | other rest => exact Untouched.frozen (rest.weaken fun _ => .inr)

end Steps

end BacklogSteps
