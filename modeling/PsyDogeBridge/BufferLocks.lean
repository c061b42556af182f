import PsyDogeBridge.SignedCalls

/-! Locked mint buffers. A buffer that the bridge has locked stays as it is until the bridge
unlocks it, whatever anybody else does. -/
namespace BufferLocks

open PodLayout CheckedSteps SolanaRuntime BridgeData MintGroups PendingMintsTracker ProgramState
  BlockTransition BridgeCalls BridgeProcessor AcceptedInstructions BridgeSystem BufferSteps
  LocalCluster StateHistory SignedCalls PendingMintBuffer

variable {env : BridgeEnv} {inv : Invocation} {l l' m : Ledger} {k locker : Pubkey} {c : Crypto}

section Locking

structure LockedFor (locker : Pubkey) (a : Account) : Prop where
  owner : a.owner = PENDING_MINT_BUFFER_BUILDER_PROGRAM_ID
  long : HEADER_SIZE ≤ a.data.length
  isLocker : (mintBufferHeader a.data).authorizedLockerPublicKey = locker
  locked : (mintBufferHeader a.data).isLocked ≠ 0

structure Locks (locker : Pubkey) (l l' : Ledger) (k : Pubkey) : Prop where
  owner : (l k).owner = PENDING_MINT_BUFFER_BUILDER_PROGRAM_ID
  long : HEADER_SIZE ≤ (l k).data.length
  isLocker : (mintBufferHeader (l k).data).authorizedLockerPublicKey = locker
  unlocked : (mintBufferHeader (l k).data).isLocked = 0
  complete : (mintBufferHeader (l k).data).pendingMintsInitialized =
    (mintBufferHeader (l k).data).pendingMintsCount
  eq : l' = l.setData k
    (withHeader (l k).data { mintBufferHeader (l k).data with isLocked := 1 })

/-- `locker` unlocks the buffer `k` and gives up what it holds. -/
structure Unlocks (locker : Pubkey) (l l' : Ledger) (k : Pubkey) : Prop where
  before : LockedFor locker (l k)
  eq : l' = l.setData k (withHeader (l k).data
    { mintBufferHeader (l k).data with
      isLocked := 0, pendingMintGroupsCount := 0, pendingMintsInitialized := 0,
      pendingMintsCount := 0 })

variable {signer k' : Pubkey} {h' h : Header} {buffer authority : AccountInfo}

def lockerInvocation (inv : Invocation) (buffer authority : AccountInfo) : Invocation :=
  { inv with
    programId := PENDING_MINT_BUFFER_BUILDER_PROGRAM_ID
    accounts := [⟨buffer.key, false, true⟩, ⟨authority.key, true, false⟩] }

theorem lockerUpdate_callee {f : Header → Vector UInt8 32 → BufferResult Header} :
    lockerUpdate (lockerInvocation inv buffer authority) l ⟨buffer.key, false, true⟩
        [⟨authority.key, true, false⟩] f = .ok l' ↔
      (l buffer.key).owner = PENDING_MINT_BUFFER_BUILDER_PROGRAM_ID ∧
      HEADER_SIZE ≤ (l buffer.key).data.length ∧
      ∃ h, f (mintBufferHeader (l buffer.key).data) authority.key = .ok h ∧
        l' = l.setData buffer.key (withHeader (l buffer.key).data h) := by
  have hwrites : (lockerInvocation inv buffer authority).writes buffer.key :=
    ⟨_, List.mem_cons_self, rfl, rfl⟩
  rw [lockerUpdate_ok]
  simp only [writeData_ok]
  constructor
  · rintro ⟨ho, signer, rest, ha, -, hl, h, hh, -, heq⟩
    cases ha
    exact ⟨ho, hl, h, hh, heq⟩
  · rintro ⟨ho, hl, h, hh, heq⟩
    exact ⟨ho, _, _, rfl, rfl, hl, h, hh, .inr ⟨ho, hwrites⟩, heq⟩

theorem toOption_eq_some {ε α : Type} {x : Except ε α} {a : α} :
    x.toOption = some a ↔ x = .ok a := by
  cases x with
  | error e => exact ⟨nofun, nofun⟩
  | ok b => simp [Except.toOption]

theorem lock_callee :
    callee env inv (lockerCall env inv 4 buffer authority) l = some l' ↔
      Locks authority.key l l' buffer.key := by
  have hprogram : (lockerCall env inv 4 buffer authority).programId =
    PENDING_MINT_BUFFER_BUILDER_PROGRAM_ID := rfl
  rw [callee, if_pos hprogram, toOption_eq_some]
  change lockerUpdate (lockerInvocation inv buffer authority) l ⟨buffer.key, false, true⟩
    [⟨authority.key, true, false⟩] Header.lock = .ok l' ↔ _
  rw [lockerUpdate_callee]
  simp only [lock_ok]
  constructor
  · rintro ⟨ho, hl, h, ⟨h0, hc, hk, rfl⟩, heq⟩
    exact ⟨ho, hl, hk.symm, h0, hc, heq⟩
  · intro h
    exact ⟨h.owner, h.long, _, ⟨h.unlocked, h.complete, h.isLocker.symm, rfl⟩, h.eq⟩

theorem unlock_callee :
    callee env inv (lockerCall env inv 5 buffer authority) l = some l' ↔
      Unlocks authority.key l l' buffer.key := by
  have hprogram : (lockerCall env inv 5 buffer authority).programId =
    PENDING_MINT_BUFFER_BUILDER_PROGRAM_ID := rfl
  rw [callee, if_pos hprogram, toOption_eq_some]
  change lockerUpdate (lockerInvocation inv buffer authority) l ⟨buffer.key, false, true⟩
    [⟨authority.key, true, false⟩] Header.unlock = .ok l' ↔ _
  rw [lockerUpdate_callee]
  simp only [unlock_ok]
  constructor
  · rintro ⟨ho, hl, h, ⟨h0, hk, rfl⟩, heq⟩
    exact ⟨⟨ho, hl, hk.symm, h0⟩, heq⟩
  · intro h
    exact ⟨h.before.owner, h.before.long, _, ⟨h.before.locked, h.before.isLocker.symm, rfl⟩, h.eq⟩

theorem Locks.elsewhere (h : Locks locker l l' k) (hk : k' ≠ k) : l' k' = l k' := by
  rw [h.eq, setData_of_ne hk]

theorem Unlocks.elsewhere (h : Unlocks locker l l' k) (hk : k' ≠ k) :
    l' k' = l k' := by
  rw [h.eq, setData_of_ne hk]

theorem Locks.lockedFor (h : Locks locker l l' k) : LockedFor locker (l' k) := by
  have hdata : (l' k).data =
      withHeader (l k).data { mintBufferHeader (l k).data with isLocked := 1 } := by
    rw [h.eq, setData_self]
  refine ⟨?_, ?_, ?_, ?_⟩
  · rw [h.eq, setData_owner]
    exact h.owner
  · rw [hdata, withHeader_length h.long]
    exact h.long
  · rw [hdata, mintBufferHeader_withHeader h.long]
    exact h.isLocker
  · rw [hdata, mintBufferHeader_withHeader h.long]
    exact (by decide : (1 : UInt8) ≠ 0)

theorem Unlocks.unlocked (h : Unlocks locker l l' k) :
    (mintBufferHeader (l' k).data).isLocked = 0 := by
  rw [h.eq, setData_self]
  dsimp only
  rw [mintBufferHeader_withHeader h.before.long]

end Locking

section Frozen

def Frozen (locker : Pubkey) (l l' : Ledger) : Prop := ∀ k, LockedFor locker (l k) → l' k = l k

theorem Frozen.refl (locker : Pubkey) (l : Ledger) : Frozen locker l l := fun _ _ => rfl

theorem Frozen.trans (h : Frozen locker l m) (h' : Frozen locker m l') : Frozen locker l l' := by
  intro k hk
  have hm := h k hk
  rw [← hm]
  exact h' k (hm ▸ hk)

def ofBuffer (k : Pubkey) : Prop := k = PENDING_MINT_BUFFER_BUILDER_PROGRAM_ID

theorem Untouched.frozen (h : Untouched ofBuffer l l') : Frozen locker l l' :=
  fun k hk => h.kept k hk.owner

variable {d d' upload : Bytes} {signs : Pubkey → Prop} {signer : Pubkey}

theorem Performs.locked {op : BufferOp} (h : Performs c signs op d d') (hz : locker ≠ zeroBytes)
    (hk : (mintBufferHeader d).authorizedLockerPublicKey = locker)
    (hlocked : (mintBufferHeader d).isLocked ≠ 0) : op = .unlock ∧ signs locker := by
  cases h with
  | setup hd hh =>
    exact absurd (hk.symm.trans (setup_eq_ok.mp hh).1) hz
  | @reinit _ _ _ count hd hd₁ hh =>
    have hsize : HEADER_SIZE ≤ calculateTargetSize count := by
      rw [calculateTargetSize, Nat.add_assoc]
      exact Nat.le_add_right _ _
    have hlong : HEADER_SIZE ≤ reinitLen d.length (calculateTargetSize count) := by
      unfold reinitLen
      split <;> omega
    simp only [Header.reinit, bind_ok, ensure_ok, exists_const, hd₁,
      mintBufferHeader_resized hlong hd] at hh
    exact absurd hh.1 hlocked
  | resize _ hl _ => exact absurd hl hlocked
  | insert hd hd₁ hi =>
    have hlong : HEADER_SIZE ≤ d.length + min (Header.getTotalBufferSize (mintBufferHeader d) -
      d.length) MAX_PERMITTED_DATA_INCREASE := by omega
    simp only [insertPendingMints, bind_ok, ensure_ok, exists_const, hd₁, grown,
      mintBufferHeader_resized hlong hd] at hi
    exact absurd hi.2.1 hlocked
  | lock _ _ _ hh => exact absurd (lock_ok.mp hh).1 hlocked
  | unlock signer hs _ hh =>
    obtain ⟨-, heq, -⟩ := unlock_ok.mp hh
    rw [heq, hk] at hs
    exact ⟨rfl, hs⟩

theorem Effect.frozen (hz : locker ≠ zeroBytes) (hs : ¬ inv.signs locker)
    (h : BufferSteps.Effect c inv upload l l' k) :
    Frozen locker l l' := by
  obtain ⟨d, d', hw, hstep⟩ := h
  intro k' hk'
  by_cases hne : k' = k
  · subst hne
    rcases hw.before with hb | ⟨hb, -⟩
    · rw [hb] at hk'
      obtain ⟨op, hop, -⟩ := hstep
      exact absurd (Performs.locked hop hz hk'.isLocker hk'.locked).2 hs
    · rw [hb] at hk'
      exact absurd hk'.long (by decide)
  · rw [hw.eq, Function.update_of_ne hne]

theorem Locks.frozen (h : Locks signer l l' k) : Frozen locker l l' := by
  intro k' hk'
  refine h.elsewhere ?_
  intro hne
  subst hne
  exact hk'.locked h.unlocked

theorem Unlocks.frozen (h : Unlocks signer l l' k) (hne : signer ≠ locker) :
    Frozen locker l l' := by
  intro k' hk'
  refine h.elsewhere ?_
  intro heq
  subst heq
  exact hne (h.before.isLocker.symm.trans hk'.isLocker)

theorem buffer_ne_token : PENDING_MINT_BUFFER_BUILDER_PROGRAM_ID ≠ TOKEN_PROGRAM_ID := by
  decide

theorem buffer_ne_system : PENDING_MINT_BUFFER_BUILDER_PROGRAM_ID ≠ SYSTEM_PROGRAM_ID := by
  decide

/-- A program that the bridge may call without its locks being at risk. -/
def Harmless (env : BridgeEnv) (k : Pubkey) : Prop :=
  k = NOOP_SHIM_PROGRAM_ID ∨ k ≠ PENDING_MINT_BUFFER_BUILDER_PROGRAM_ID ∧
    Bystander env.platform ofBridgeOrBuffer k

theorem callee_quiet {c : Cpi} (hc : Harmless env c.programId)
    (h : callee env inv c l = some l') : Untouched ofBuffer l l' := by
  have hne : c.programId ≠ PENDING_MINT_BUFFER_BUILDER_PROGRAM_ID := by
    rcases hc with hc | hc
    · rw [hc]
      decide
    · exact hc.1
  rw [callee, if_neg hne] at h
  split at h
  · obtain ⟨-, -, rfl⟩ := Option.map_eq_some_iff.mp h
    exact .refl _ _
  · next hshim =>
    rcases hc with hc | hc
    · exact absurd hc hshim
    · split at h
      · cases h
      · exact (hc.2 _ _ _ _ h).weaken fun _ => .inr

theorem calledIf_quiet {flag : Bool} {b : Borrows} {c : Cpi} {r : Ledger × List Effect}
    (hc : Harmless env c.programId) (h : CalledIf env inv flag b c l r) :
    Untouched ofBuffer l r.1 := by
  unfold CalledIf at h
  split at h
  · exact callee_quiet hc h.1.2.2.2
  · rw [h]
    exact .refl _ _

theorem writeState_quiet {st : BridgeState} (hp : inv.programId = DOGE_BRIDGE_PROGRAM_ID)
    (h : writeState inv l k st = .ok l') : Untouched ofBuffer l l' := by
  obtain ⟨hor, rfl⟩ := writeState_ok.mp h
  constructor
  · intro k' hk'
    by_cases hne : k' = k
    · subst hne
      rcases hor with hsame | ⟨hown, -⟩
      · rw [setData_self, ← hsame]
      · rw [hp] at hown
        exact absurd (hk'.symm.trans hown) buffer_ne_bridge
    · exact setData_of_ne hne
  · intro k' hk' hnew
    rw [setData_owner] at hk'
    exact absurd hk' hnew

theorem createIfEmpty_quiet {bridgeState payer : AccountInfo} {es : List Effect}
    (hp : inv.programId = DOGE_BRIDGE_PROGRAM_ID)
    (h : createIfEmpty env inv l bridgeState payer = .ok (l', es)) : Untouched ofBuffer l l' := by
  unfold createIfEmpty at h
  split at h
  · simp only [bind_ok, ensure_ok, exists_const, createDerived_ok, pure_ok, Prod.mk.injEq] at h
    obtain ⟨-, l₂, ⟨-, -, -, ⟨ho, hd⟩, rfl⟩, rfl, -⟩ := h
    constructor
    · intro k' hk'
      refine Function.update_of_ne ?_ _ _
      intro heq
      subst heq
      rw [ho] at hk'
      exact buffer_ne_system hk'.symm
    · intro k' hk' hnew
      by_cases heq : k' = bridgeState.key
      · subst heq
        rw [Function.update_self] at hk'
        exact absurd (hk'.symm.trans hp) buffer_ne_bridge
      · rw [Function.update_of_ne heq] at hk'
        exact absurd hk' hnew
  · rw [pure_ok] at h
    cases h
    exact .refl _ _

end Frozen

section Strangers

variable {ix : BridgeInstruction} {es : List Effect} {bridgeState mintBuffer dogeMint : AccountInfo}
  {recipients : List AccountInfo} {claim : GroupClaim} {lockFirst shouldUnlock : Bool}

def movesBacklog : BridgeInstruction → Prop
  | .initializeBridge _ | .blockUpdate .. | .processReorgBlocks .. | .processMintGroup .. => True
  | .processMintGroupAutoAdvance .. => True
  | _ => False

def QuietShim (env : BridgeEnv) (inv : Invocation) (ix : BridgeInstruction) : Prop :=
  postsMessage ix → ∃ shim, inv.accounts[2]? = some shim ∧ Harmless env shim.key

variable {r : Ledger × List Effect} {b : Borrows} {flag : Bool} {a : AccountInfo}
  {rest : List AccountInfo}

theorem locks_of_calledIf
    (h : CalledIf env inv true b (lockerCall env inv 4 mintBuffer bridgeState) l r) :
    Locks bridgeState.key l r.1 mintBuffer.key := lock_callee.mp h.1.2.2.2

theorem unlocks_of_calledIf
    (h : CalledIf env inv true b (lockerCall env inv 5 mintBuffer bridgeState) l r) :
    Unlocks bridgeState.key l r.1 mintBuffer.key := unlock_callee.mp h.1.2.2.2

/-- What an instruction of the bridge does to mint buffers: it locks and unlocks them with the
signature of its state account, and leaves them alone otherwise. -/
inductive Acts (signer : Pubkey) : Ledger → Ledger → Prop where
  | quiet {l l' : Ledger} (h : Untouched ofBuffer l l') : Acts signer l l'
  | lock {l l' : Ledger} {k : Pubkey} (h : Locks signer l l' k) : Acts signer l l'
  | unlock {l l' : Ledger} {k : Pubkey} (h : Unlocks signer l l' k) : Acts signer l l'
  | trans {l m l' : Ledger} (h : Acts signer l m) (h' : Acts signer m l') : Acts signer l l'

theorem Acts.frozen {signer : Pubkey} (h : Acts signer l l') (hne : signer ≠ locker) :
    Frozen locker l l' := by
  induction h with
  | quiet h => exact Untouched.frozen h
  | lock h => exact h.frozen
  | unlock h => exact h.frozen hne
  | trans _ _ ih ih' => exact ih.trans ih'

theorem lockIf_acts
    (h : CalledIf env inv flag b (lockerCall env inv 4 mintBuffer bridgeState) l r) :
    Acts bridgeState.key l r.1 := by
  cases flag with
  | true => exact .lock (locks_of_calledIf h)
  | false =>
    rw [show r = (l, []) from h]
    exact .quiet (.refl _ _)

theorem unlockIf_acts
    (h : CalledIf env inv flag b (lockerCall env inv 5 mintBuffer bridgeState) l r) :
    Acts bridgeState.key l r.1 := by
  cases flag with
  | true => exact .unlock (unlocks_of_calledIf h)
  | false =>
    rw [show r = (l, []) from h]
    exact .quiet (.refl _ _)

theorem blockUpdated_acts {fixed : BlockUpdateFixedData} {extra : List FinalizedBlockMintTxoInfo}
    {mintBump txoBump : UInt8} {isReorg : Bool} (hp : inv.programId = DOGE_BRIDGE_PROGRAM_ID)
    (ha : inv.accounts = a :: rest)
    (h : BlockUpdated env inv l fixed extra mintBump txoBump isReorg l' es) : Acts a.key l l' := by
  obtain ⟨ha', -, -, -, -, hlock, -, -, -, -, hwrite, hunlock⟩ := h
  rw [ha] at ha'
  cases ha'
  exact ((lockIf_acts hlock).trans (.quiet (writeState_quiet hp hwrite))).trans
    (unlockIf_acts hunlock)

section

variable (htoken : Harmless env TOKEN_PROGRAM_ID)
include htoken

theorem mintRecords_quiet {mem : Bytes} {start n p : ℕ}
    (h : mintRecords env inv b dogeMint bridgeState recipients mem start n p l = .ok (l', es)) :
    Untouched ofBuffer l l' :=
  mintRecords_rel (R := Untouched ofBuffer) (.refl _) (fun _ _ _ => .trans)
    (fun _ _ _ _ hc => callee_quiet htoken hc.2.2.2) h

theorem groupMinted_acts
    (h : GroupMinted env inv l bridgeState mintBuffer dogeMint recipients claim lockFirst
      shouldUnlock l' es) :
    Acts bridgeState.key l l' := by
  obtain ⟨-, hlock, hmint, -, hunlock⟩ := h
  exact ((lockIf_acts hlock).trans (.quiet (mintRecords_quiet htoken hmint))).trans
    (unlockIf_acts hunlock)

theorem Accepted.leavesBuffers (hp : inv.programId = DOGE_BRIDGE_PROGRAM_ID)
    (hshim : QuietShim env inv ix) (hix : ¬ movesBacklog ix) (h : Accepted env inv l ix l' es) :
    Untouched ofBuffer l l' := by
  have posted {b c l₁} (hc : Harmless env c.programId) (hm : Posted env inv b c l₁ l' es) :
      Untouched ofBuffer l₁ l' := by
    obtain ⟨hw, hn⟩ := hm
    exact (calledIf_quiet hc hw).trans (calledIf_quiet hc hn)
  cases h with
  | requestWithdrawal _ _ _ write burn =>
    exact (writeState_quiet hp write).trans (callee_quiet htoken burn.2.2.2)
  | operatorWithdrawFees _ _ _ _ _ _ write minted =>
    exact (writeState_quiet hp write).trans (callee_quiet htoken minted.2.2.2)
  | processManualDeposit _ _ _ _ _ write minted =>
    exact (writeState_quiet hp write).trans (callee_quiet htoken minted.2.2.2)
  | processWithdrawal accounts _ _ _ _ _ _ write post
  | replayWithdrawal accounts _ _ _ _ _ _ _ _ _ write post =>
    obtain ⟨shim, hget, hharmless⟩ := hshim trivial
    obtain ⟨rest, ha⟩ := accounts
    rw [ha] at hget
    cases hget
    exact (writeState_quiet hp write).trans (posted hharmless post)
  | snapshotWithdrawals _ _ _ _ _ write => exact writeState_quiet hp write
  | _ => exact absurd trivial hix

theorem Accepted.acts (hp : inv.programId = DOGE_BRIDGE_PROGRAM_ID) (hshim : QuietShim env inv ix)
    (ha : inv.accounts = a :: rest) (h : Accepted env inv l ix l' es) : Acts a.key l l' := by
  by_cases hix : movesBacklog ix
  · cases h with
    | initializeBridge _ _ create _ write =>
      exact .quiet ((createIfEmpty_quiet hp create).trans (writeState_quiet hp write))
    | blockUpdate run => exact blockUpdated_acts hp ha run
    | processReorgBlocks run => exact blockUpdated_acts hp ha run
    | processMintGroup accounts _ _ _ _ _ _ _ write minted =>
      rw [ha] at accounts
      cases accounts
      exact .trans (.quiet (writeState_quiet hp write)) (groupMinted_acts htoken minted)
    | processMintGroupAutoAdvance accounts _ _ _ _ _ _ _ write minted =>
      rw [ha] at accounts
      cases accounts
      exact .trans (.quiet (writeState_quiet hp write)) (groupMinted_acts htoken minted)
    | _ => exact hix.elim
  · exact .quiet (Accepted.leavesBuffers htoken hp hshim hix h)

theorem groupMinted_kept (howner : lockFirst = false → ofBuffer (l mintBuffer.key).owner)
    (h : GroupMinted env inv l bridgeState mintBuffer dogeMint recipients claim lockFirst false l'
      es) :
    ∃ l₁, (if lockFirst then Locks bridgeState.key l l₁ mintBuffer.key else l₁ = l) ∧
      l' mintBuffer.key = l₁ mintBuffer.key := by
  obtain @⟨l₁, l₂, _, locked, minted, unlocked, -, hlock, hmint, -, hunlock⟩ := h
  have hkept : ofBuffer (l₁ mintBuffer.key).owner → l' mintBuffer.key = l₁ mintBuffer.key := by
    intro ho
    rw [show l' = l₂ from congrArg Prod.fst hunlock]
    exact (mintRecords_quiet htoken hmint).kept _ ho
  cases lockFirst with
  | true =>
    have hlocks := locks_of_calledIf hlock
    exact ⟨l₁, hlocks, hkept hlocks.lockedFor.owner⟩
  | false =>
    have hsame : l₁ = l := congrArg Prod.fst hlock
    exact ⟨l₁, hsame, hkept (by rw [hsame]; exact howner rfl)⟩

/-- Minting a group: the buffer is locked from the start or locked first, and stays locked
unless the group was the last one. -/
theorem groupMinted_lockedFor (hpda : bridgeState.key = locker)
    (hlocked : lockFirst = false → LockedFor locker (l mintBuffer.key))
    (h : GroupMinted env inv l bridgeState mintBuffer dogeMint recipients claim lockFirst
      false l' es) :
    LockedFor locker (l' mintBuffer.key) := by
  obtain ⟨l₁, hlock, hkept⟩ := groupMinted_kept htoken (fun hf => (hlocked hf).owner) h
  rw [hkept]
  cases lockFirst with
  | true =>
    subst hpda
    exact Locks.lockedFor hlock
  | false =>
    rw [show l₁ = l from hlock]
    exact hlocked rfl

end

theorem LockedFor.ne_pda {st : BridgeState} (h : LockedFor locker (l k)) (hs : Holds env l st) :
    k ≠ BridgeEnv.pda env := by
  intro hk
  have howner := h.owner
  rw [hk, show l (BridgeEnv.pda env) = _ from hs] at howner
  exact buffer_ne_bridge howner.symm

end Strangers

end BufferLocks
