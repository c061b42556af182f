import PsyDogeBridge.ManualClaimClient
import PsyDogeBridge.MintLog

/-! The two instructions that mint a group, as the operator's client builds them, and when the
bridge accepts them. Whether it does depends on the tracker, on the lock of the buffer and on the
token program only. -/
namespace MintGroupCalls

open PodLayout CheckedSteps SolanaRuntime BridgeData MintGroups PendingMintsTracker ProgramState
  BlockTransition TransitionFacts BridgeCalls BridgeProcessor AcceptedInstructions BridgeSystem
  InstructionCodec ManualClaimClient PendingMintBuffer StateHistory BufferLocks BacklogSteps
  MintBacklog RecordedBuffer MintLog

def writable (k : Pubkey) : AccountInfo := ⟨k, false, true⟩

def processMintGroupInstruction (p : Platform) (programId operator mintBuffer dogeMint : Pubkey)
    (recipients : List Pubkey) (groupIndex : UInt16) (mintBufferBump : UInt8)
    (shouldUnlock : Bool) : Instruction where
  programId := programId
  accounts :=
    [writable (p.findProgramAddress [BRIDGE_STATE_SEED] programId).1, writable mintBuffer,
      ⟨operator, true, false⟩, writable dogeMint, ⟨operator, true, true⟩,
      ⟨PENDING_MINT_BUFFER_BUILDER_PROGRAM_ID, false, false⟩, ⟨TOKEN_PROGRAM_ID, false, false⟩] ++
    recipients.map writable
  data := genAlignedInstruction 7 (mintGroupPayload groupIndex mintBufferBump shouldUnlock)

def processMintGroupAutoAdvanceInstruction (p : Platform)
    (programId operator mintBuffer txoBuffer dogeMint : Pubkey) (recipients : List Pubkey)
    (groupIndex : UInt16) (mintBufferBump txoBufferBump : UInt8) (shouldUnlock : Bool) :
    Instruction where
  programId := programId
  accounts :=
    [writable (p.findProgramAddress [BRIDGE_STATE_SEED] programId).1, writable mintBuffer,
      writable txoBuffer, ⟨operator, true, false⟩, writable dogeMint, ⟨operator, true, true⟩,
      ⟨PENDING_MINT_BUFFER_BUILDER_PROGRAM_ID, false, false⟩,
      ⟨TXO_BUFFER_BUILDER_PROGRAM_ID, false, false⟩, ⟨TOKEN_PROGRAM_ID, false, false⟩] ++
    recipients.map writable
  data := genAlignedInstructionWithBumps 9
    (mintGroupPayload groupIndex mintBufferBump shouldUnlock) mintBufferBump txoBufferBump

variable {env : BridgeEnv} {buffer mint : Pubkey} {others : Ledger → Ledger → Prop} {l l' : Ledger}
  {inv : Invocation} {recipients : List Pubkey} {claim : GroupClaim} {flag : Bool} {g : UInt16}
  {st : BridgeState}

section Token

def tokenMint (env : BridgeEnv) (mint : Pubkey) (r : PendingMint) (l : Ledger) : Option Ledger :=
  env.platform.foreign TOKEN_PROGRAM_ID l
    [writable mint, writable r.recipient, ⟨BridgeEnv.pda env, true, false⟩]
    (7 :: Pod.u64.encode r.amount)

def OwnChange (env : BridgeEnv) (buffer : Pubkey) (l l' : Ledger) : Prop :=
  ∀ k, k ≠ BridgeEnv.pda env → k ≠ buffer → l' k = l k

def Between (env : BridgeEnv) (buffer : Pubkey) (others : Ledger → Ledger → Prop) :
    Ledger → Ledger → Prop :=
  Relation.ReflTransGen fun l l' => OwnChange env buffer l l' ∨ others l l'

/-- The token program mints the records one after the other, and none of the calls is about the
buffer itself, which the bridge holds borrowed. -/
def MintsSucceed (env : BridgeEnv) (buffer mint : Pubkey) (others : Ledger → Ledger → Prop) :
    List PendingMint → Ledger → Prop
  | [], _ => True
  | r :: rs, l => mint ≠ buffer ∧ r.recipient ≠ buffer ∧ ∀ l₁, Between env buffer others l l₁ →
    ∃ l₂, tokenMint env mint r l₁ = some l₂ ∧ MintsSucceed env buffer mint others rs l₂

theorem Between.own (h : OwnChange env buffer l l') : Between env buffer others l l' :=
  .single (.inl h)

theorem Between.other (h : others l l') : Between env buffer others l l' := .single (.inr h)

theorem MintsSucceed.later {rs : List PendingMint} (h : MintsSucceed env buffer mint others rs l)
    (hb : Between env buffer others l l') : MintsSucceed env buffer mint others rs l' := by
  cases rs with
  | nil => trivial
  | cons r rs => exact ⟨h.1, h.2.1, fun l₁ hl₁ => h.2.2 l₁ (hb.trans hl₁)⟩

end Token

section Records

variable {mem : Bytes} {start : ℕ}

structure ListsGroup (env : BridgeEnv) (inv : Invocation) (buffer mint : Pubkey)
    (recipients : List Pubkey) : Prop where
  program : inv.programId = DOGE_BRIDGE_PROGRAM_ID
  state : writable (BridgeEnv.pda env) ∈ inv.accounts
  buffer : writable buffer ∈ inv.accounts
  mint : writable mint ∈ inv.accounts
  recipients : ∀ r ∈ recipients, writable r ∈ inv.accounts
  bufferProgram : inv.lists PENDING_MINT_BUFFER_BUILDER_PROGRAM_ID
  tokenProgram : inv.lists TOKEN_PROGRAM_ID

theorem grants_writable {k : Pubkey} {c : Cpi} (h : writable k ∈ inv.accounts) :
    inv.grants c (writable k) :=
  ⟨⟨_, h, rfl⟩, fun hs => absurd hs Bool.false_ne_true, fun _ => ⟨_, h, rfl, rfl⟩⟩

theorem ListsGroup.called {r : PendingMint} (h : ListsGroup env inv buffer mint recipients)
    (hr : r.recipient ∈ recipients) (hbuffer : r.recipient ≠ buffer) (hmint : mint ≠ buffer)
    (ran : tokenMint env mint r l = some l') :
    Called env inv ⟨[], [buffer]⟩ (mintToCall env inv (writable mint) (writable r.recipient)
      (writable (BridgeEnv.pda env)) r.amount) l l' := by
  refine ⟨?_, h.tokenProgram, ?_, ?_⟩
  · intro _ m hm
    simp only [mintToCall, List.mem_cons, List.not_mem_nil, or_false] at hm
    refine ⟨List.not_mem_nil, ?_⟩
    intro hwritable hshared
    rw [List.mem_singleton] at hshared
    rcases hm with rfl | rfl | rfl
    · exact hmint hshared
    · exact hbuffer hshared
    · exact absurd hwritable Bool.false_ne_true
  · intro m hm
    simp only [mintToCall, List.mem_cons, List.not_mem_nil, or_false] at hm
    rcases hm with rfl | rfl | rfl
    · exact grants_writable h.mint
    · exact grants_writable (h.recipients _ hr)
    · have hsigner : env.bridgePda inv.programId =
          BridgeEnv.pda env := by rw [h.program, BridgeEnv.pda]
      exact ⟨⟨_, h.state, rfl⟩, fun _ => .inr (congrArg some hsigner),
        fun hw => absurd hw Bool.false_ne_true⟩
  · rw [LocalCluster.callee_token h.program rfl]
    exact ran

def recordList (mem : Bytes) (start p n : ℕ) : List PendingMint :=
  (recordsFrom mem start p n).map Prod.snd

theorem recordList_succ (p n : ℕ) : recordList mem start p (n + 1) =
    recordAt mem (start + 40 * p) :: recordList mem start (p + 1) n := by
  rw [recordList, recordsFrom, List.range'_succ]
  rfl

theorem recordList_length (p n : ℕ) : (recordList mem start p n).length = n := by
  rw [recordList, List.length_map, recordsFrom, List.length_map, List.length_range']

theorem recordList_getElem? {p n i : ℕ} (h : i < n) :
    (recordList mem start p n)[i]? = some (recordAt mem (start + 40 * (p + i))) := by
  rw [recordList, recordsFrom, List.map_map, List.getElem?_map, List.getElem?_range' h, Nat.one_mul]
  rfl

theorem mintRecords_succeed {rest : List PendingMint} {total n p : ℕ}
    (hlists : ListsGroup env inv buffer mint ((recordList mem start 0 total).map (·.recipient)))
    (hlong : start + 40 * total ≤ mem.length) (hn : p + n = total)
    (h : MintsSucceed env buffer mint others (recordList mem start p n ++ rest) l) :
    ∃ l' es, mintRecords env inv ⟨[], [buffer]⟩ (writable mint) (writable (BridgeEnv.pda env))
        (((recordList mem start 0 total).map (·.recipient)).map writable) mem start n p l =
          .ok (l', es) ∧
      MintsSucceed env buffer mint others rest l' := by
  induction n generalizing p l with
  | zero => exact ⟨l, [], rfl, h⟩
  | succ n ih =>
    rw [recordList_succ, List.cons_append] at h
    obtain ⟨hmint, hbuffer, hstep⟩ := h
    obtain ⟨l₁, hran, hrest⟩ := hstep l .refl
    obtain ⟨l', es, hmints, hrest'⟩ := ih (p := p + 1) (by omega) hrest
    have hoffset : start + p * PM_DA_PENDING_MINT_SIZE = start + 40 * p := by
      change start + p * 40 = _
      omega
    have hrecord : (recordList mem start 0 total)[p]? = some (recordAt mem (start + 40 * p)) := by
      rw [recordList_getElem? (by omega), Nat.zero_add]
    have hcalled := hlists.called (List.mem_map_of_mem (List.mem_of_getElem? hrecord)) hbuffer hmint
      hran
    refine ⟨l', .mintRecord (start + 40 * p) (recordAt mem (start + 40 * p))
      (mintToCall env inv (writable mint) (writable (recordAt mem (start + 40 * p)).recipient)
        (writable (BridgeEnv.pda env)) (recordAt mem (start + 40 * p)).amount) :: es, ?_, hrest'⟩
    simp only [mintRecords, bind_ok, ensure_ok, exists_const, mintTo_ok, pure_ok, Prod.exists,
      Prod.mk.injEq, hoffset]
    refine ⟨?_, l₁, _, ⟨writable (recordAt mem (start + 40 * p)).recipient, ?_, rfl, rfl, hcalled⟩,
      l', es, hmints, rfl, rfl⟩
    · change start + 40 * p + 40 ≤ mem.length
      omega
    · rw [List.getElem?_map, List.getElem?_map, hrecord]
      rfl

end Records

section Groups

theorem ListsGroup.locker {tag : UInt8} (h : ListsGroup env inv buffer mint recipients)
    (ran : callee env inv (lockerCall env inv tag (writable buffer) (writable (BridgeEnv.pda env)))
      l = some l') :
    Called env inv .none (lockerCall env inv tag (writable buffer) (writable (BridgeEnv.pda env))) l
      l' :=
  locker_called h.program h.state h.buffer h.bufferProgram ran

/-- A claimed group is minted if the token program mints its records, provided that the buffer is
locked when it has to be unlocked. -/
theorem groupMinted_of {rest : List PendingMint}
    (htoken : Harmless env TOKEN_PROGRAM_ID) (howner : ofBuffer (l buffer).owner)
    (hrecipients : recipients = (recordList (l buffer).data claim.startOffset 0
      claim.mintsCount.toNat).map (·.recipient))
    (hlists : ListsGroup env inv buffer mint recipients)
    (hlong : claim.startOffset + 40 * claim.mintsCount.toNat ≤ (l buffer).data.length)
    (hunlock : flag = true → LockedFor (BridgeEnv.pda env) (l buffer))
    (h : MintsSucceed env buffer mint others (recordList (l buffer).data claim.startOffset 0
      claim.mintsCount.toNat ++ rest) l) :
    ∃ l' es, GroupMinted env inv l (writable (BridgeEnv.pda env)) (writable buffer) (writable mint)
        (recipients.map writable) claim false flag l' es ∧
      MintsSucceed env buffer mint others rest l' ∧ (flag = false → l' buffer = l buffer) := by
  rw [hrecipients] at hlists
  obtain ⟨l₂, minted, hminted, hrest⟩ := mintRecords_succeed hlists hlong (Nat.zero_add _) h
  rw [← hrecipients] at hminted
  have hcount : claim.mintsCount.toNat = (recipients.map writable).length := by
    rw [hrecipients, List.length_map, List.length_map, recordList_length]
  have hkept : l₂ buffer = l buffer := (mintRecords_quiet htoken hminted).kept buffer howner
  have hfew : ¬ (flag = true ∧ false = true ∧
      claim.mintsCount > PM_MAX_PENDING_MINTS_PER_GROUP_U16) := by
    rintro ⟨-, hjit, -⟩
    cases hjit
  cases flag with
  | false =>
    exact ⟨l₂, _, .intro hcount rfl hminted hfew rfl, hrest, fun _ => hkept⟩
  | true =>
    obtain ⟨l₃, hl₃⟩ : ∃ l₃, Unlocks (BridgeEnv.pda env) l₂ l₃ buffer := by
      refine ⟨_, ?_, rfl⟩
      rw [hkept]
      exact hunlock rfl
    refine ⟨l₃, _, .intro hcount rfl hminted hfew ⟨hlists.locker (unlock_callee.mpr hl₃), rfl⟩,
      hrest.later (.own ?_), fun hf => absurd hf Bool.false_ne_true.symm⟩
    rw [hl₃.eq]
    exact fun _ _ hk => setData_of_ne hk

end Groups

section Sent

variable {now : ℤ} {operator txos : Pubkey} {mintBump txoBump : UInt8}

/-- A transaction with one instruction of the bridge, if the bridge accepts it. -/
def sendAndConfirm (env : BridgeEnv) (now : ℤ) (l : Ledger) (ix : Instruction) : Option Ledger :=
  (processInstruction env (ix.invocation now) l ix.data).toOption.map Prod.fst

theorem sendAndConfirm_eq_some {ix : Instruction} :
    sendAndConfirm env now l ix = some l' ↔
      ∃ es, processInstruction env (ix.invocation now) l ix.data = .ok (l', es) := by
  simp only [sendAndConfirm, Option.map_eq_some_iff, toOption_eq_some, Prod.exists]
  constructor
  · rintro ⟨_, es, hran, rfl⟩
    exact ⟨es, hran⟩
  · rintro ⟨es, hran⟩
    exact ⟨_, es, hran, rfl⟩

def GroupRuns (env : BridgeEnv) (inv : Invocation) (l : Ledger) (st : BridgeState) (g : UInt16)
    (flag : Bool) (buffer mint : Pubkey) (recipients : List Pubkey) (l' : Ledger) : Prop :=
  ∃ core claim es, ClaimsGroup st.coreState g buffer core claim ∧ claim.canUnlock = flag ∧
    GroupMinted env inv (install env l { st with coreState := core }) (writable (BridgeEnv.pda env))
      (writable buffer) (writable mint) (recipients.map writable) claim false flag l' es

theorem listsGroup_of {fixed : List AccountInfo} (program : inv.programId = DOGE_BRIDGE_PROGRAM_ID)
    (accounts : inv.accounts = fixed ++ recipients.map writable)
    (state : writable (BridgeEnv.pda env) ∈ fixed) (hbuffer : writable buffer ∈ fixed)
    (hmint : writable mint ∈ fixed)
    (bufferProgram : (⟨PENDING_MINT_BUFFER_BUILDER_PROGRAM_ID, false, false⟩ : AccountInfo) ∈ fixed)
    (tokenProgram : (⟨TOKEN_PROGRAM_ID, false, false⟩ : AccountInfo) ∈ fixed) :
    ListsGroup env inv buffer mint recipients := by
  have hfixed {a : AccountInfo} (ha : a ∈ fixed) : a ∈ inv.accounts := by
    rw [accounts]
    exact List.mem_append_left _ ha
  refine ⟨program, hfixed state, hfixed hbuffer, hfixed hmint, ?_, ⟨_, hfixed bufferProgram, rfl⟩,
    ⟨_, hfixed tokenProgram, rfl⟩⟩
  intro r hr
  rw [accounts]
  exact List.mem_append_right _ (List.mem_map_of_mem hr)

theorem processMintGroup_lists : ListsGroup env ((processMintGroupInstruction env.platform
    DOGE_BRIDGE_PROGRAM_ID operator buffer mint recipients g mintBump flag).invocation now) buffer
    mint recipients := by
  refine listsGroup_of rfl rfl List.mem_cons_self ?_ ?_ ?_ ?_ <;> simp

theorem processMintGroupAutoAdvance_lists : ListsGroup env ((processMintGroupAutoAdvanceInstruction
    env.platform DOGE_BRIDGE_PROGRAM_ID operator buffer txos mint recipients g mintBump txoBump
    flag).invocation now) buffer mint recipients := by
  refine listsGroup_of rfl rfl List.mem_cons_self ?_ ?_ ?_ ?_ <;> simp

theorem ListsGroup.writeState {st' : BridgeState}
    (h : ListsGroup env inv buffer mint recipients) (hs : Holds env l st) :
    BridgeProcessor.writeState inv l (BridgeEnv.pda env) st' = .ok (install env l st') :=
  writeState_ok.mpr ⟨.inr ⟨(congrArg Account.owner hs).trans h.program.symm,
    ⟨_, h.state, rfl, rfl⟩⟩, (Holds.setData_eq_install hs).symm⟩

theorem processMintGroup_sent (hs : Holds env l st)
    (hoperator : operator = st.coreState.accessControl.operatorPubkey)
    (hmint : mint = st.dogeMint) :
    sendAndConfirm env now l (processMintGroupInstruction env.platform DOGE_BRIDGE_PROGRAM_ID
        operator buffer mint recipients g mintBump flag) = some l' ↔
      GroupRuns env ((processMintGroupInstruction env.platform DOGE_BRIDGE_PROGRAM_ID
        operator buffer
        mint recipients g mintBump flag).invocation now) l st g flag buffer mint recipients l' := by
  have hunpack := unpack_instructionData (.processMintGroup g mintBump flag)
  rw [sendAndConfirm_eq_some]
  constructor
  · rintro ⟨es, hran⟩
    obtain ⟨ix, hix, haccepted⟩ := processInstruction_ok.mp hran
    obtain rfl := Except.ok.inj (hix.symm.trans hunpack)
    cases haccepted with
    | processMintGroup accounts _ read _ _ _ run agree write minted =>
      cases accounts
      obtain rfl := Holds.read_eq hs rfl read
      obtain rfl := Except.ok.inj (write.symm.trans (processMintGroup_lists.writeState hs))
      exact ⟨_, _, es, runAutoMintGroupPrecheck_ok.mp run, agree, minted⟩
  · rintro ⟨core, claim, es, claims, agree, minted⟩
    exact ⟨es, processInstruction_ok.mpr ⟨_, hunpack, .processMintGroup rfl rfl
      (congrArg Account.data hs) claims.buffer hmint hoperator
      (runAutoMintGroupPrecheck_ok.mpr claims) agree (processMintGroup_lists.writeState hs) minted⟩⟩

/-- PROCESS_MINT_GROUP_AUTO_ADVANCE does the same while groups of the current block remain. -/
theorem processMintGroupAutoAdvance_sent (hs : Holds env l st)
    (hlive : st.coreState.tracker.isEmpty = false) :
    sendAndConfirm env now l (processMintGroupAutoAdvanceInstruction env.platform
        DOGE_BRIDGE_PROGRAM_ID operator buffer txos mint recipients g mintBump txoBump flag) =
        some l' ↔
      GroupRuns env ((processMintGroupAutoAdvanceInstruction env.platform DOGE_BRIDGE_PROGRAM_ID
        operator buffer txos mint recipients g mintBump txoBump flag).invocation now) l st g flag
        buffer mint recipients l' := by
  have hunpack := unpack_instructionData (.processMintGroupAutoAdvance g mintBump txoBump flag)
  rw [sendAndConfirm_eq_some]
  constructor
  · rintro ⟨es, hran⟩
    obtain ⟨ix, hix, haccepted⟩ := processInstruction_ok.mp hran
    obtain rfl := Except.ok.inj (hix.symm.trans hunpack)
    cases haccepted with
    | processMintGroupAutoAdvance accounts _ read advance setup _ run agree write minted =>
      cases accounts
      obtain rfl := Holds.read_eq hs rfl read
      rw [hlive, Bool.false_and] at advance
      subst advance
      rw [advanceIf_false.mp setup] at run
      obtain rfl := Except.ok.inj
        (write.symm.trans (processMintGroupAutoAdvance_lists.writeState hs))
      exact ⟨_, _, es, runAutoMintGroupPrecheck_ok.mp run, agree, minted⟩
  · rintro ⟨core, claim, es, claims, agree, minted⟩
    refine ⟨es, processInstruction_ok.mpr ⟨_, hunpack, .processMintGroupAutoAdvance rfl rfl
      (congrArg Account.data hs) rfl ?_ claims.buffer (runAutoMintGroupPrecheck_ok.mpr claims) agree
      (processMintGroupAutoAdvance_lists.writeState hs) ?_⟩⟩
    · rw [hlive, Bool.false_and]
      exact advanceIf_false.mpr rfl
    · rw [hlive, Bool.false_and]
      exact minted

end Sent

section Runs

variable {core : PsyBridgeProgramState} {count : UInt16}

def groupMints (mem : Bytes) (n g : ℕ) : List PendingMint :=
  recordList mem (recordArea n + 960 * g) 0 (groupSize n g)

theorem ne_pda_of_owner (hs : Holds env l st) (howner : ofBuffer (l buffer).owner) :
    buffer ≠ BridgeEnv.pda env := by
  rintro rfl
  rw [show l (BridgeEnv.pda env) = _ from hs] at howner
  exact buffer_ne_bridge howner.symm

/-- A group that can be claimed is minted, if the token program mints its records and the buffer
is locked when the group is the last one. -/
theorem groupRuns_of {rest : List PendingMint} (hg : Guarded env.platform)
    (htoken : Harmless env TOKEN_PROGRAM_ID) (hs : Holds env l st)
    (claims : ClaimsGroup st.coreState g buffer core claim)
    (ht : Tracking st.coreState.tracker count)
    (howner : ofBuffer (l buffer).owner)
    (hlong : recordArea count.toNat + 40 * count.toNat ≤ (l buffer).data.length)
    (hlists : ListsGroup env inv buffer mint
      ((groupMints (l buffer).data count.toNat g.toNat).map (·.recipient)))
    (hunlock : claim.canUnlock = true → LockedFor (BridgeEnv.pda env) (l buffer))
    (h : MintsSucceed env buffer mint others
      (groupMints (l buffer).data count.toNat g.toNat ++ rest) l) :
    ∃ l', GroupRuns env inv l st g claim.canUnlock buffer mint
        ((groupMints (l buffer).data count.toNat g.toNat).map (·.recipient)) l' ∧
      Holds env l' { st with coreState := core } ∧ MintsSucceed env buffer mint others rest l' ∧
      (claim.canUnlock = false → l' buffer = l buffer) := by
  have hkept : install env l { st with coreState := core } buffer = l buffer :=
    install_of_ne (ne_pda_of_owner hs howner)
  obtain ⟨hoffset, hcount⟩ := ClaimsGroup.reads claims ht
  have hin := ClaimsGroup.inGroup claims ht
  have hown : OwnChange env buffer l (install env l { st with coreState := core }) :=
    fun k hk _ => install_of_ne hk
  have hrecords : groupMints (l buffer).data count.toNat g.toNat =
      recordList (install env l { st with coreState := core } buffer).data claim.startOffset 0
        claim.mintsCount.toNat := by
    rw [groupMints, hkept, hoffset, hcount]
  have hread : claim.startOffset + 40 * claim.mintsCount.toNat ≤
      (install env l { st with coreState := core } buffer).data.length := by
    rw [hkept, hoffset, hcount]
    unfold groupSize
    unfold groupCount at hin
    omega
  have hlocked : claim.canUnlock = true →
      LockedFor (BridgeEnv.pda env) (install env l { st with coreState := core } buffer) := by
    rw [hkept]
    exact hunlock
  have hsucceed := h.later (.own hown)
  rw [hrecords] at hsucceed
  obtain ⟨l', es, hminted, hrest, hbuffer⟩ : ∃ l' es, GroupMinted env inv
      (install env l { st with coreState := core }) (writable (BridgeEnv.pda env)) (writable buffer)
      (writable mint) (((groupMints (l buffer).data count.toNat g.toNat).map (·.recipient)).map
        writable) claim false claim.canUnlock l' es ∧
      MintsSucceed env buffer mint others rest l' ∧ (claim.canUnlock = false →
        l' buffer = install env l { st with coreState := core } buffer) :=
    groupMinted_of htoken (by rw [hkept]; exact howner)
      (congrArg (List.map (·.recipient)) hrecords) hlists hread hlocked hsucceed
  refine ⟨l', ⟨core, claim, es, claims, rfl, hminted⟩,
    Untouched.holds (groupMinted_untouched hg hminted) (install_holds _ _ _), hrest, ?_⟩
  intro hf
  rw [hbuffer hf, hkept]

theorem GroupRuns.buffers (htoken : Harmless env TOKEN_PROGRAM_ID) (hs : Holds env l st)
    (h : GroupRuns env inv l st g flag buffer mint recipients l') :
    ∃ l₂, (∀ k, ofBuffer (l k).owner → l₂ k = l k) ∧
      if flag then Unlocks (BridgeEnv.pda env) l₂ l' buffer else l' = l₂ := by
  obtain ⟨core, claim, es, -, -, hminted⟩ := h
  obtain @⟨l₁, l₂, _, _, _, _, -, hlock, hmint, -, hunlock⟩ := hminted
  obtain rfl : l₁ = install env l { st with coreState := core } := congrArg Prod.fst hlock
  refine ⟨l₂, ?_, ?_⟩
  · intro k howner
    have hkept : install env l { st with coreState := core } k = l k :=
      install_of_ne (ne_pda_of_owner hs howner)
    have hquiet := (mintRecords_quiet htoken hmint).kept k
    rw [hkept] at hquiet
    exact hquiet howner
  · cases flag with
    | false => exact congrArg Prod.fst hunlock
    | true => exact unlock_callee.mp hunlock.1.2.2.2

theorem GroupRuns.locked (htoken : Harmless env TOKEN_PROGRAM_ID)
    (hs : Holds env l st) (howner : ofBuffer (l buffer).owner)
    (h : GroupRuns env inv l st g true buffer mint recipients l') :
    LockedFor (BridgeEnv.pda env) (l buffer) := by
  obtain ⟨l₂, hkept, hunlock⟩ := h.buffers htoken hs
  rw [← hkept buffer howner]
  exact hunlock.before

theorem GroupRuns.elsewhere {k : Pubkey}
    (htoken : Harmless env TOKEN_PROGRAM_ID) (hs : Holds env l st) (hk : k ≠ buffer)
    (howner : ofBuffer (l k).owner)
    (h : GroupRuns env inv l st g flag buffer mint recipients l') : l' k = l k := by
  obtain ⟨l₂, hkept, hunlock⟩ := h.buffers htoken hs
  rw [← hkept k howner]
  cases flag with
  | false => exact congrFun hunlock k
  | true =>
    rw [hunlock.eq]
    exact setData_of_ne hk

end Runs

end MintGroupCalls
