import PsyDogeBridge.CommittedMints

/-! The four instructions that mint: which mint do they mint from, and who has to sign? -/
namespace MintHandlers

open PodLayout CheckedSteps SolanaRuntime BridgeData ProgramState BlockTransition TransitionFacts
  BridgeCalls BridgeProcessor AcceptedInstructions BridgeSystem LocalCluster

variable {env : BridgeEnv} {inv : Invocation} {l l' : Ledger} {es : List Effect}
  {ix : BridgeInstruction} {st : BridgeState}

section Mints

def mintOf (e : Effect) : Option Pubkey :=
  if e.cpi.programId = TOKEN_PROGRAM_ID ∧ e.cpi.data.head? = some 7 then
    e.cpi.accounts.head?.map AccountInfo.key
  else none

variable {authority mint : AccountInfo} {recipients : List AccountInfo}

theorem mintOf_mintTo {e : Effect} {recipient : AccountInfo} {amount : UInt64}
    (h : e.cpi = mintToCall env inv mint recipient authority amount) :
    mintOf e = some mint.key := by
  rw [mintOf, h]
  exact if_pos ⟨rfl, rfl⟩

theorem mintOf_lockerIf {flag : Bool} {tag : UInt8} {buffer : AccountInfo}
    {r : Ledger × List Effect}
    (h : CalledIf env inv flag .none (lockerCall env inv tag buffer authority) l r) :
    ∀ e ∈ r.2, mintOf e = none := by
  have hne : PENDING_MINT_BUFFER_BUILDER_PROGRAM_ID ≠ TOKEN_PROGRAM_ID := by decide
  intro e he
  rw [calledIf_effects h e he, mintOf]
  exact if_neg fun hmint => hne hmint.1

theorem mintOf_group {bridgeState mintBuffer dogeMint : AccountInfo} {claim : GroupClaim}
    {lockFirst shouldUnlock : Bool}
    (h : GroupMinted env inv l bridgeState mintBuffer dogeMint recipients claim lockFirst
      shouldUnlock l' es) :
    (∀ e ∈ es, ∀ k, mintOf e = some k → recipients ≠ [] ∧ k = dogeMint.key) ∧
      (recipients ≠ [] → ∃ e ∈ es, mintOf e = some dogeMint.key) := by
  obtain @⟨_, _, _, _, mints, _, count, lock, mint, -, unlock⟩ := h
  obtain ⟨hlen, hcalls⟩ := mintRecords_effects mint
  rw [count] at hlen
  have hminted : ∀ e ∈ mints, mintOf e = some dogeMint.key := by
    intro e he
    obtain ⟨recipient, amount, hcall⟩ := hcalls e he
    exact mintOf_mintTo hcall
  constructor
  · intro e he k hk
    rcases List.mem_append.mp he with he | he
    · rcases List.mem_append.mp he with he | he
      · rw [mintOf_lockerIf lock e he] at hk
        cases hk
      · rw [hminted e he] at hk
        refine ⟨?_, (Option.some.inj hk).symm⟩
        rw [← List.length_pos_iff, ← hlen]
        exact List.length_pos_of_mem he
    · rw [mintOf_lockerIf unlock e he] at hk
      cases hk
  · intro hne
    obtain ⟨e, he⟩ := List.exists_mem_of_length_pos (hlen ▸ List.length_pos_iff.mpr hne)
    exact ⟨e, List.mem_append_left _ (List.mem_append_right _ he), hminted e he⟩

end Mints

section Plain

def merged (inv : Invocation) (a : AccountInfo) : AccountInfo :=
  ⟨a.key, decide (inv.signs a.key), decide (inv.writes a.key)⟩

/-- The accounts with which the plain handler is called instead of the auto-advance one. -/
def plainAccounts : List AccountInfo → List AccountInfo
  | bridgeState :: mintBuffer :: _ :: operator :: dogeMint :: payer :: _ :: _ :: _ :: recipients =>
    bridgeState :: mintBuffer :: operator :: dogeMint :: payer ::
      ⟨PENDING_MINT_BUFFER_BUILDER_PROGRAM_ID, false, false⟩ :: ⟨TOKEN_PROGRAM_ID, false, false⟩ ::
      recipients
  | accounts => accounts

def plainInvocation (inv : Invocation) : Invocation :=
  { inv with accounts := (plainAccounts inv.accounts).map (merged inv) }

def Kept (inv : Invocation) (k : Pubkey) : Prop := ∃ a ∈ plainAccounts inv.accounts, a.key = k

variable {k : Pubkey} {c : Cpi} {b : Borrows} {recipients : List AccountInfo}

theorem Kept.lists (h : Kept inv k) : (plainInvocation inv).lists k := by
  obtain ⟨a, ha, rfl⟩ := h
  exact ⟨merged inv a, List.mem_map_of_mem ha, rfl⟩

theorem Kept.signs (h : Kept inv k) (hs : inv.signs k) :
    (plainInvocation inv).signs k := by
  obtain ⟨a, ha, rfl⟩ := h
  exact ⟨merged inv a, List.mem_map_of_mem ha, rfl, decide_eq_true hs⟩

theorem Kept.writes (h : Kept inv k) (hw : inv.writes k) :
    (plainInvocation inv).writes k := by
  obtain ⟨a, ha, rfl⟩ := h
  exact ⟨merged inv a, List.mem_map_of_mem ha, rfl, decide_eq_true hw⟩

theorem Called.plain (h : Called env inv b c l l') (hprogram : Kept inv c.programId)
    (hkept : ∀ m ∈ c.accounts, Kept inv m.key) :
    Called env (plainInvocation inv) b c l l' := by
  obtain ⟨permitted, -, granted, called⟩ := h
  refine ⟨permitted, hprogram.lists, ?_, called⟩
  intro m hm
  obtain ⟨-, hsigns, hwrites⟩ := granted m hm
  exact ⟨(hkept m hm).lists, fun hs => (hsigns hs).imp_left (hkept m hm).signs,
    fun hw => (hkept m hm).writes (hwrites hw)⟩

theorem CalledIf.plain {flag : Bool} {r : Ledger × List Effect} (h : CalledIf env inv flag b c l r)
    (hprogram : Kept inv c.programId) (hkept : ∀ m ∈ c.accounts, Kept inv m.key) :
    CalledIf env (plainInvocation inv) flag b c l r := by
  cases flag with
  | false => exact h
  | true => exact ⟨Called.plain h.1 hprogram hkept, h.2⟩

theorem mintRecords_plain {mint authority : AccountInfo} {mem : Bytes} {start n p : ℕ}
    (htoken : Kept inv TOKEN_PROGRAM_ID) (hmint : Kept inv mint.key)
    (hauthority : Kept inv authority.key) (hrecipients : ∀ a ∈ recipients, Kept inv a.key)
    (h : mintRecords env inv b mint authority recipients mem start n p l = .ok (l', es)) :
    mintRecords env (plainInvocation inv) b (merged inv mint) (merged inv authority)
      (recipients.map (merged inv)) mem start n p l = .ok (l', es) := by
  induction n generalizing p l l' es with
  | zero => exact h
  | succ n ih =>
    simp only [mintRecords, bind_ok, ensure_ok, exists_const, mintTo_ok, pure_ok, Prod.exists,
      Prod.mk.injEq] at h ⊢
    obtain ⟨hlen, l₁, c, ⟨recipient, hget, hkey, rfl, hcalled⟩, l₂, es₂, hrest, rfl, rfl⟩ := h
    have hplain := Called.plain hcalled htoken (by
      intro m hm
      simp only [mintToCall, List.mem_cons, List.not_mem_nil, or_false] at hm
      rcases hm with rfl | rfl | rfl
      · exact hmint
      · exact hrecipients recipient (List.mem_of_getElem? hget)
      · exact hauthority)
    refine ⟨hlen, l₁, _, ⟨merged inv recipient, ?_, hkey, rfl, hplain⟩, l₂, es₂, ih hrest, rfl, rfl⟩
    rw [List.getElem?_map, hget]
    rfl

/-- Without a just-in-time advance the plain handler mints the group as well. -/
theorem groupMinted_plain {bridgeState mintBuffer dogeMint : AccountInfo} {claim : GroupClaim}
    {shouldUnlock : Bool} (htoken : Kept inv TOKEN_PROGRAM_ID)
    (hprogram : Kept inv PENDING_MINT_BUFFER_BUILDER_PROGRAM_ID) (hstate : Kept inv bridgeState.key)
    (hbuffer : Kept inv mintBuffer.key) (hmint : Kept inv dogeMint.key)
    (hrecipients : ∀ a ∈ recipients, Kept inv a.key)
    (h : GroupMinted env inv l bridgeState mintBuffer dogeMint recipients claim false shouldUnlock
      l' es) :
    GroupMinted env (plainInvocation inv) l (merged inv bridgeState) (merged inv mintBuffer)
      (merged inv dogeMint) (recipients.map (merged inv)) claim false shouldUnlock l' es := by
  have hlocker (tag : UInt8) : ∀ m ∈ (lockerCall env inv tag mintBuffer bridgeState).accounts,
      Kept inv m.key := by
    intro m hm
    simp only [lockerCall, List.mem_cons, List.not_mem_nil, or_false] at hm
    rcases hm with rfl | rfl
    · exact hbuffer
    · exact hstate
  obtain ⟨count, lock, mint, small, unlock⟩ := h
  refine .intro ?_ (CalledIf.plain lock hprogram (hlocker 4))
    (mintRecords_plain htoken hmint hstate hrecipients mint) small
    (CalledIf.plain unlock hprogram (hlocker 5))
  rw [count, List.length_map]

end Plain

section Checks

def advances (st : BridgeState) : Bool :=
  st.coreState.tracker.isEmpty && !st.coreState.pendingMintTxos.isEmpty

def mints : BridgeInstruction → Prop
  | .processMintGroup .. => True
  | .processMintGroupAutoAdvance .. => True
  | .operatorWithdrawFees => True
  | .processManualDeposit _ => True
  | _ => False

def operatorPlace : BridgeInstruction → Option ℕ
  | .processMintGroup .. => some 2
  | .processMintGroupAutoAdvance .. => some 3
  | _ => none

structure Checked (env : BridgeEnv) (inv : Invocation) (l : Ledger) (st : BridgeState)
    (ix : BridgeInstruction) (l' : Ledger) (es : List Effect) : Prop where
  mint : ∀ e ∈ es, ∀ k, mintOf e = some k → k = st.dogeMint
  operator : ∀ i, operatorPlace ix = some i → ∃ a, inv.accounts[i]? = some a ∧
    a.isSigner = true ∧ a.key = st.coreState.accessControl.operatorPubkey
  plain : ∀ groupIndex mintBump txoBump shouldUnlock,
    ix = .processMintGroupAutoAdvance groupIndex mintBump txoBump shouldUnlock →
    advances st = false →
    Accepted env (plainInvocation inv) l (.processMintGroup groupIndex mintBump shouldUnlock) l' es

/-- The instruction names the stored mint and the stored operator where this is not checked. -/
def NamesStored (inv : Invocation) (st : BridgeState) : BridgeInstruction → Prop
  | .processMintGroupAutoAdvance .. =>
    (∃ a, inv.accounts[3]? = some a ∧ a.key = st.coreState.accessControl.operatorPubkey) ∧
      ((∃ a, inv.accounts[4]? = some a ∧ a.key = st.dogeMint) ∨
        (advances st = true ∧ inv.accounts.length = 9))
  | .processManualDeposit _ => ∃ a, inv.accounts[2]? = some a ∧ a.key = st.dogeMint
  | _ => True

variable {i d c b h a g f e : AccountInfo} {recipients : List AccountInfo} {groupIndex : UInt16}
  {shouldUnlock : Bool} {bump : UInt8}

theorem read_unique {rest : List AccountInfo} {st₀ : BridgeState}
    (first : inv.accounts.head? = some a) (held : (l a.key).data = BridgeState.pod.encode st)
    (hacc : inv.accounts = b :: rest) (hread : (l b.key).data = BridgeState.pod.encode st₀) :
    st₀ = st := by
  rw [hacc] at first
  cases first
  exact BridgeState.pod.encode_injective (hread.symm.trans held)

section

variable (hacc : inv.accounts = a :: b :: c :: d :: e :: f :: g :: h :: i :: recipients)
include hacc

theorem plainInvocation_accounts :
    (plainInvocation inv).accounts = merged inv a :: merged inv b :: merged inv d :: merged inv e ::
      merged inv f :: merged inv ⟨PENDING_MINT_BUFFER_BUILDER_PROGRAM_ID, false, false⟩ ::
      merged inv ⟨TOKEN_PROGRAM_ID, false, false⟩ :: recipients.map (merged inv) := by
  rw [plainInvocation, hacc]
  rfl

theorem kept_of_auto :
    Kept inv a.key ∧ Kept inv b.key ∧ Kept inv e.key ∧
      Kept inv PENDING_MINT_BUFFER_BUILDER_PROGRAM_ID ∧ Kept inv TOKEN_PROGRAM_ID ∧
      ∀ r ∈ recipients, Kept inv r.key := by
  have hplain : plainAccounts inv.accounts = a :: b :: d :: e :: f ::
      ⟨PENDING_MINT_BUFFER_BUILDER_PROGRAM_ID, false, false⟩ :: ⟨TOKEN_PROGRAM_ID, false, false⟩ ::
      recipients := by
    rw [hacc]
    rfl
  simp only [Kept, hplain]
  refine ⟨⟨a, by simp, rfl⟩, ⟨b, by simp, rfl⟩, ⟨e, by simp, rfl⟩,
    ⟨⟨PENDING_MINT_BUFFER_BUILDER_PROGRAM_ID, false, false⟩, by simp, rfl⟩,
    ⟨⟨TOKEN_PROGRAM_ID, false, false⟩, by simp, rfl⟩, ?_⟩
  intro r hr
  refine ⟨r, ?_, rfl⟩
  simp [hr]

theorem plain_mint (held : (l a.key).data = BridgeState.pod.encode st)
    (hplain : Accepted env (plainInvocation inv) l (.processMintGroup groupIndex bump shouldUnlock)
      l' es) :
    e.key = st.dogeMint := by
  cases hplain with
  | processMintGroup accounts signed read buffer mint =>
    rw [plainInvocation_accounts hacc] at accounts
    simp only [List.cons.injEq] at accounts
    obtain ⟨rfl, -, -, rfl, -⟩ := accounts
    rw [BridgeState.pod.encode_injective (held.symm.trans read)]
    exact mint

end

/-- A minting instruction is checked as it should be exactly if it names the stored mint and the
stored operator where the program does not compare them. -/
theorem minting_checked_iff {a : AccountInfo} (first : inv.accounts.head? = some a)
    (held : (l a.key).data = BridgeState.pod.encode st) (hmints : mints ix)
    (h : Accepted env inv l ix l' es) :
    Checked env inv l st ix l' es ↔ NamesStored inv st ix := by
  cases h with
  | operatorWithdrawFees accounts signed read mint isOperator run write mintFees =>
    obtain rfl := read_unique first held accounts read
    refine ⟨fun _ => trivial, fun _ => ⟨?_, ?_, ?_⟩⟩
    · rw [List.forall_mem_singleton, mintOf_mintTo rfl]
      intro k hk
      rw [← Option.some.inj hk, mint]
    · intro i hi
      cases hi
    · intro _ _ _ _ heq
      cases heq
  | processManualDeposit accounts signed claimPda read run write mintDeposit =>
    obtain rfl := read_unique first held accounts read
    constructor
    · intro hc
      refine ⟨_, congrArg (·[2]?) accounts, ?_⟩
      exact hc.mint _ (List.mem_singleton_self _) _ (mintOf_mintTo rfl)
    · rintro ⟨m, hm, hkey⟩
      rw [accounts] at hm
      cases hm
      refine ⟨?_, ?_, ?_⟩
      · rw [List.forall_mem_singleton, mintOf_mintTo rfl]
        intro k hk
        rw [← Option.some.inj hk, hkey]
      · intro i hi
        cases hi
      · intro _ _ _ _ heq
        cases heq
  | processMintGroup accounts signed read buffer mint isOperator run agree write minted =>
    obtain rfl := read_unique first held accounts read
    refine ⟨fun _ => trivial, fun _ => ⟨?_, ?_, ?_⟩⟩
    · intro e he k hk
      rw [((mintOf_group minted).1 e he k hk).2, mint]
    · intro i hi
      cases hi
      exact ⟨_, congrArg (·[2]?) accounts, signed, isOperator⟩
    · intro _ _ _ _ heq
      cases heq
  | @processMintGroupAutoAdvance _ _ _ _ _ _ _ _ _ _ _ _ _ recipients st₀ jit _ _ _ _ _ _ accounts
      signed read advance setup buffer run agree write minted =>
    obtain rfl := read_unique first held accounts read
    constructor
    · intro hc
      obtain ⟨op, hop, -, hkey⟩ := hc.operator 3 rfl
      refine ⟨⟨op, hop, hkey⟩, ?_⟩
      by_cases hrecipients : advances st₀ = true ∧ recipients = []
      · refine .inr ⟨hrecipients.1, ?_⟩
        rw [accounts, hrecipients.2]
        rfl
      · refine .inl ⟨_, congrArg (·[4]?) accounts, ?_⟩
        by_cases hadvances : advances st₀ = true
        · obtain ⟨e, he, hm⟩ := (mintOf_group minted).2 fun hnil => hrecipients ⟨hadvances, hnil⟩
          exact hc.mint e he _ hm
        · exact plain_mint accounts read (hc.plain _ _ _ _ rfl (Bool.not_eq_true _ ▸ hadvances))
    · rintro ⟨⟨op, hop, hoperator⟩, hmint⟩
      rw [accounts] at hop
      cases hop
      refine ⟨?_, ?_, ?_⟩
      · intro e he k hk
        obtain ⟨hne, rfl⟩ := (mintOf_group minted).1 e he k hk
        rcases hmint with ⟨m, hm, hkey⟩ | ⟨-, hlen⟩
        · rw [accounts] at hm
          cases hm
          exact hkey
        · rw [accounts] at hlen
          exact absurd (List.length_eq_zero_iff.mp (Nat.add_right_cancel (m := 9) hlen)) hne
      · intro i hi
        cases hi
        exact ⟨_, congrArg (·[3]?) accounts, signed, hoperator⟩
      · intro _ _ _ _ heq hadvances
        cases heq
        obtain rfl := advance.trans hadvances
        obtain rfl := advanceIf_false.mp setup
        rcases hmint with ⟨m, hm, hkey⟩ | ⟨htrue, -⟩
        · rw [accounts] at hm
          cases hm
          obtain ⟨hstate, hbuffer, hmint, hprogram, htoken, hrecipients⟩ := kept_of_auto accounts
          obtain ⟨hwrite, hl₁⟩ := writeState_ok.mp write
          have hsigns : inv.signs _ := ⟨_, by simp [accounts], rfl, signed⟩
          exact .processMintGroup (plainInvocation_accounts accounts) (decide_eq_true hsigns) read
            buffer hkey hoperator run agree
            (writeState_ok.mpr ⟨hwrite.imp_right fun h => ⟨h.1, hstate.writes h.2⟩, hl₁⟩)
            (groupMinted_plain htoken hprogram hstate hbuffer hmint hrecipients minted)
        · rw [hadvances] at htrue
          cases htrue
  | _ => exact hmints.elim

end Checks

section Samples

open StateHistory RecordedBuffer CommittedMints

variable {core : PsyBridgeProgramState}

def autoInvocation (env : BridgeEnv) (operator : Pubkey) : Invocation where
  programId := DOGE_BRIDGE_PROGRAM_ID
  accounts := [⟨BridgeEnv.pda env, false, true⟩, ⟨mintBufferKey, false, true⟩,
    ⟨txoBufferKey, false, false⟩, ⟨operator, true, false⟩, ⟨mintKey, false, true⟩,
    ⟨operator, true, true⟩, ⟨PENDING_MINT_BUFFER_BUILDER_PROGRAM_ID, false, false⟩,
    ⟨TXO_BUFFER_BUILDER_PROGRAM_ID, false, false⟩, ⟨TOKEN_PROGRAM_ID, false, false⟩,
    ⟨recipientKey, false, true⟩]
  unixTimestamp := 0
  fundsSuffice := true

theorem autoInvocation_lists (env : BridgeEnv) (operator : Pubkey) :
    ListsDeposit env (autoInvocation env operator) := by
  refine ⟨rfl, ?_, ?_, ?_, ?_,
    ⟨⟨PENDING_MINT_BUFFER_BUILDER_PROGRAM_ID, false, false⟩, ?_, rfl⟩,
    ⟨⟨TOKEN_PROGRAM_ID, false, false⟩, ?_, rfl⟩⟩ <;> simp [autoInvocation]

theorem autoInvocation_reads (operator : Pubkey) (hs : Holds env l st) :
    ∃ a, (autoInvocation env operator).accounts.head? = some a ∧
      (l a.key).data = BridgeState.pod.encode st :=
  ⟨_, rfl, congrArg Account.data hs⟩

theorem auto_accepted {operator : Pubkey} (hs : Holds env l ⟨core, mintKey⟩)
    (hbacklog : core.pendingMintTxos = firstBacklog mintBufferKey 1 depositArea depositTxos)
    (minted : GroupMinted env (autoInvocation env operator) (install env l ⟨claimed core, mintKey⟩)
      ⟨BridgeEnv.pda env, false, true⟩ ⟨mintBufferKey, false, true⟩ ⟨mintKey, false, true⟩
      [⟨recipientKey, false, true⟩] ⟨true, 1, 104⟩ false true l' es) :
    Accepted env (autoInvocation env operator) l (.processMintGroupAutoAdvance 0 253 254 true)
      l' es := by
  have hlive : false = (core.tracker.isEmpty && !core.pendingMintTxos.isEmpty) := by
    rw [PsyBridgeProgramState.tracker, hbacklog]
    rfl
  exact .processMintGroupAutoAdvance rfl rfl (congrArg Account.data hs) hlive
    (advanceIf_false.mpr rfl) (first_tracked hbacklog)
    (runAutoMintGroupPrecheck_ok.mpr (first_group_claims hbacklog)) rfl
    (claimed_written (autoInvocation_lists env operator) hs) minted

theorem anyone_accepted (operator : Pubkey) :
    ∃ events l core l' es, Run (Step cluster) freshLedger events l ∧
      Holds cluster l ⟨core, mintKey⟩ ∧ core.accessControl.operatorPubkey = operatorKey ∧
      Accepted cluster (autoInvocation cluster operator) l
        (.processMintGroupAutoAdvance 0 253 254 true) l' es := by
  obtain ⟨l₁, hran, hmints, htxos, hmint, hrecipient, hunused⟩ := uploads_ran
  rw [← cluster_pda] at hunused
  obtain ⟨es₁, _, h₁, rfl⟩ := genesis_step hunused
  obtain ⟨es₂, l₂, core, h₂, hs, hbacklog, haccess, hbuffer, hkept⟩ :=
    firstBlock_updated hmints htxos
  obtain ⟨es, l', hminted, -⟩ :=
    cluster_group_minted (autoInvocation_lists cluster operator) hbuffer
    ((hkept _ (by decide) (by decide)).trans hmint)
    ((hkept _ (by decide) (by decide)).trans hrecipient)
  exact ⟨_, l₂, core, l', es, ((upload_run hran).append (.single h₁)).append
    (.single (step_of_accepted rfl (.blockUpdate h₂))), hs, congrArg _ haccess,
    auto_accepted hs hbacklog hminted⟩

/-- A stranger claims the group of the first block: nothing compares their key with the stored one,
and the plain instruction is not accepted from them. -/
theorem stranger_claims_unchecked :
    ∃ events l st l' es, Run (Step cluster) freshLedger events l ∧ Holds cluster l st ∧
      Accepted cluster (autoInvocation cluster strangerKey) l
        (.processMintGroupAutoAdvance 0 253 254 true) l' es ∧
      ¬ Checked cluster (autoInvocation cluster strangerKey) l st
        (.processMintGroupAutoAdvance 0 253 254 true) l' es := by
  obtain ⟨events, l, core, l', es, hrun, hs, hoperator, haccepted⟩ := anyone_accepted strangerKey
  refine ⟨events, l, _, l', es, hrun, hs, haccepted, ?_⟩
  intro hchecked
  obtain ⟨a, ha, -, hkey⟩ := hchecked.operator 3 rfl
  cases ha
  rw [hoperator] at hkey
  exact absurd hkey (by decide)

/-- The operator claims it as well, and then all is checked. -/
theorem operator_claim_checked :
    ∃ l st l' es, Holds cluster l st ∧
      Accepted cluster (autoInvocation cluster operatorKey) l
        (.processMintGroupAutoAdvance 0 253 254 true) l' es ∧
      Checked cluster (autoInvocation cluster operatorKey) l st
        (.processMintGroupAutoAdvance 0 253 254 true) l' es := by
  obtain ⟨-, l, core, l', es, -, hs, hoperator, haccepted⟩ := anyone_accepted operatorKey
  have hnamed : NamesStored (autoInvocation cluster operatorKey) ⟨core, mintKey⟩
      (.processMintGroupAutoAdvance 0 253 254 true) :=
    ⟨⟨_, rfl, hoperator.symm⟩, .inl ⟨_, rfl, rfl⟩⟩
  have hmints : mints (.processMintGroupAutoAdvance 0 253 254 true) := trivial
  obtain ⟨a, hfirst, hheld⟩ := autoInvocation_reads operatorKey hs
  exact ⟨l, _, l', es, hs, haccepted,
    (minting_checked_iff hfirst hheld hmints haccepted).mpr hnamed⟩

end Samples

end MintHandlers
