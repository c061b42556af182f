import PsyDogeBridge.BacklogInvariant
import PsyDogeBridge.MintGroupCalls

/-! The operator's client mints what remains of a block: it reads the tracker once and then sends
one instruction for each group that was not claimed at that time. -/
namespace MintDriver

open PodLayout CheckedSteps SolanaRuntime BridgeData MintGroups PendingMintsTracker
  FinalizedBlockMintTxoManager ProgramState BlockTransition TransitionFacts BridgeCalls
  BridgeProcessor AcceptedInstructions BridgeSystem ManualClaimClient StateHistory StateRuns
  BufferLocks BacklogSteps MintBacklog BacklogInvariant MintGroupCalls

/-- The signatures of the transactions are left out. -/
structure ProcessMintsResult where
  groupsProcessed : ℕ
  totalMintsProcessed : ℕ
  fullyCompleted : Bool
  deriving DecidableEq, Repr

def ProcessMintsResult.empty : ProcessMintsResult := ⟨0, 0, true⟩

inductive Outcome where
  | completed (result : ProcessMintsResult)
  | failed
  | panicked
  deriving DecidableEq, Repr

/-- What a driver has done: the ledger, the instructions that it sent, each with whether the bridge
accepted it, and its counters. -/
structure Driven where
  ledger : Ledger
  sent : List (Instruction × Bool)
  groupsProcessed : ℕ
  totalMintsProcessed : ℕ

def Driven.start (l : Ledger) : Driven := ⟨l, [], 0, 0⟩

def processGroups (send : Ledger → Instruction → Option Ledger)
    (meanwhile : UInt16 → Ledger → Ledger) (tracker : PendingMintsTracker)
    (pendingMints : List PendingMint) (build : List Pubkey → UInt16 → Bool → Instruction) :
    List UInt16 → Driven → Driven × Outcome
  | [], d => (d, .completed ⟨d.groupsProcessed, d.totalMintsProcessed, true⟩)
  | groupIdx :: rest, d =>
    match tracker.isPendingMintsGroupAlreadyClaimed groupIdx with
    | .error _ => (d, .panicked)
    | .ok true => processGroups send meanwhile tracker pendingMints build rest d
    | .ok false =>
      let isLast : Bool := groupIdx == tracker.getCurrentTotalPendingMintsGroups - 1
      let groupStart := groupIdx.toNat * 24
      let groupEnd := min (groupStart + 24) pendingMints.length
      -- the range of a slice that ends before it starts
      if groupEnd < groupStart then (d, .panicked)
      else
        let groupMints := (pendingMints.drop groupStart).take (groupEnd - groupStart)
        let ix := build (groupMints.map (·.recipient)) groupIdx isLast
        let l := meanwhile groupIdx d.ledger
        match send l ix with
        | none => ({ d with ledger := l, sent := d.sent ++ [(ix, false)] }, .failed)
        | some l' => processGroups send meanwhile tracker pendingMints build rest
            ⟨l', d.sent ++ [(ix, true)], d.groupsProcessed + 1,
              d.totalMintsProcessed + groupMints.length⟩

structure BridgeClient where
  programId : Pubkey
  operator : Pubkey
  dogeMint : Option Pubkey

section Drivers

variable (env : BridgeEnv) (now : ℤ) (meanwhile : UInt16 → Ledger → Ledger) (client : BridgeClient)
  (pendingMints : List PendingMint)

/-- What both drivers do, up to the instruction that they build. -/
def processRemaining (build : Pubkey → List Pubkey → UInt16 → Bool → Instruction) (l : Ledger) :
    Driven × Outcome :=
  if pendingMints = [] then (.start l, .completed .empty)
  else
    match readState l (env.bridgePda client.programId) with
    | .error _ => (.start l, .failed)
    | .ok st =>
      let tracker := st.coreState.pendingMintTxos.currentPendingMintsTracker
      let totalGroups := tracker.getCurrentTotalPendingMintsGroups
      processGroups (sendAndConfirm env now) meanwhile tracker pendingMints
        (build (client.dogeMint.getD st.dogeMint))
        ((List.range totalGroups.toNat).map UInt16.ofNat) (.start l)

variable (mintBuffer : Pubkey) (mintBufferBump : UInt8)

def processRemainingPendingMintsGroups (l : Ledger) : Driven × Outcome :=
  processRemaining env now meanwhile client pendingMints
    (fun dogeMint recipients groupIdx isLast => processMintGroupInstruction env.platform
      client.programId client.operator mintBuffer dogeMint recipients groupIdx
        mintBufferBump isLast)
    l

def processRemainingPendingMintsGroupsAutoAdvance (txoBuffer : Pubkey) (txoBufferBump : UInt8)
    (l : Ledger) : Driven × Outcome :=
  processRemaining env now meanwhile client pendingMints
    (fun dogeMint recipients groupIdx isLast => processMintGroupAutoAdvanceInstruction env.platform
      client.programId client.operator mintBuffer txoBuffer dogeMint recipients groupIdx
      mintBufferBump txoBufferBump isLast) l

end Drivers

variable {env : BridgeEnv} {l l' : Ledger} {e : Event} {es : List Event} {st₀ st : BridgeState}
  {buffer mint : Pubkey} {count : UInt16} {a : Account} {j k m n : ℕ} {now : ℤ}
  {meanwhile : UInt16 → Ledger → Ledger} {build : List Pubkey → UInt16 → Bool → Instruction}
  {d : Driven} {t : PendingMintsTracker} {mem : Bytes}

section Others

/-- A step of another party, which claims no group of the bridge. -/
structure OtherParty (env : BridgeEnv) (e : Event) : Prop where
  notInitialize : ¬ isInitialize e
  noClaim : ∀ call, e = .bridge call → call.on (BridgeEnv.pda env) → mintsGroup call.ix = none
  shim : quietShim env e

/-- While the bridge is busy it accepts no update, so others leave its backlog alone. -/
theorem OtherParty.still (ho : OtherParty env e) (hg : Guarded env.platform) (hs : Holds env l st)
    (hbusy : st.coreState.pendingMintTxos.isEmpty = false) (h : Step env l e l') : still env e := by
  intro call he hon hmoves
  subst he
  obtain ⟨st', -, hcall⟩ := Step.callStep hg h hs
  rw [onState_of_on hon] at hcall
  have hnone := ho.noClaim call rfl hon
  have hinit := ho.notInitialize
  have hstep := hcall.step
  obtain ⟨inv, ix, effects, before, after⟩ := call
  cases ix with
  | initializeBridge => exact hinit trivial
  | blockUpdate =>
    cases hstep with
    | blockUpdate run => exact absurd run.header.ready (Bool.eq_false_iff.mp hbusy)
  | processReorgBlocks =>
    cases hstep with
    | processReorgBlocks run => exact absurd run.header.ready (Bool.eq_false_iff.mp hbusy)
  | processMintGroup => cases hnone
  | processMintGroupAutoAdvance => cases hnone
  | _ => exact hmoves

theorem Step.otherParty (hg : Guarded env.platform) (htoken : Harmless env TOKEN_PROGRAM_ID)
    (hz : BridgeEnv.pda env ≠ zeroBytes) (ho : OtherParty env e) (hs : Holds env l st)
    (hbusy : st.coreState.pendingMintTxos.isEmpty = false) (h : Step env l e l') :
    ∃ st', Holds env l' st' ∧
      st'.coreState.pendingMintTxos = st.coreState.pendingMintTxos ∧ SameSetup st st' ∧
      Frozen (BridgeEnv.pda env) l l' := by
  have hstill := ho.still hg hs hbusy h
  have hfrozen := Step.frozen hg htoken hz ho.shim hstill h
  obtain ⟨st', hs', rfl | ⟨call, rfl, hon, hstep⟩⟩ := h.holds hg hs
  · exact ⟨_, hs', rfl, .refl _, hfrozen⟩
  · refine ⟨st', hs', StateStep.backlog_kept hstep (hstill call rfl hon),
      StateStep.sameSetup hstep ?_, hfrozen⟩
    intro params hix
    refine hstill call rfl hon ?_
    rw [hix]
    trivial

theorem Run.otherParties (hg : Guarded env.platform) (htoken : Harmless env TOKEN_PROGRAM_ID)
    (hz : BridgeEnv.pda env ≠ zeroBytes) (ho : ∀ e ∈ es, OtherParty env e) (hs : Holds env l st)
    (hbusy : st.coreState.pendingMintTxos.isEmpty = false) (r : Run (Step env) l es l') :
    ∃ st', Holds env l' st' ∧
      st'.coreState.pendingMintTxos = st.coreState.pendingMintTxos ∧ SameSetup st st' ∧
      Frozen (BridgeEnv.pda env) l l' := by
  induction r with
  | nil => exact ⟨st, hs, rfl, .refl _, .refl _ _⟩
  | snoc _ step ih =>
    obtain ⟨hbefore, hlast⟩ := List.forall_mem_append.mp ho
    obtain ⟨st₁, hs₁, hsame₁, hsetup₁, hfrozen₁⟩ := ih hbefore
    rw [← hsame₁] at hbusy
    obtain ⟨st₂, hs₂, hsame₂, hsetup₂, hfrozen₂⟩ :=
      Step.otherParty hg htoken hz (List.forall_mem_singleton.mp hlast) hs₁ hbusy step
    exact ⟨st₂, hs₂, hsame₂.trans hsame₁, hsetup₁.trans hsetup₂, hfrozen₁.trans hfrozen₂⟩

end Others

section Serving

/-- Where the driver stands before group `k`: of the groups that it saw unclaimed those from `k` on
remain, and until they are claimed the buffer is as it was. -/
structure Serving (env : BridgeEnv) (st₀ : BridgeState) (buffer : Pubkey) (count : UInt16)
    (a : Account) (j k : ℕ) (l : Ledger) (st : BridgeState) : Prop where
  holds : Holds env l st
  setup : SameSetup st₀ st
  wellFormed : WellFormed st.coreState.pendingMintTxos
  tracking : Tracking st.coreState.tracker count
  account : st.coreState.tracker.lastFinalizedAutoClaimMintsStorageAccount = buffer
  free : ∀ g, g < groupCount count.toNat → (st.coreState.tracker.isClaimed g = false ↔
    k ≤ g ∧ st₀.coreState.tracker.isClaimed g = false)
  cursor : st.coreState.pendingMintTxos.pendingFinalizedInfoCurrentIndex.toNat =
    if st.coreState.tracker.pendingMintsGroupsRemaining = 0 then j + 1 else j
  kept : st.coreState.tracker.pendingMintsGroupsRemaining ≠ 0 → l buffer = a

variable {g : ℕ}

theorem Serving.mem_freeGroups (h : Serving env st₀ buffer count a j k l st) :
    g ∈ freeGroups st.coreState.tracker count.toNat ↔
      g < groupCount count.toNat ∧ k ≤ g ∧ st₀.coreState.tracker.isClaimed g = false := by
  rw [MintBacklog.mem_freeGroups]
  constructor
  · rintro ⟨hg, hfree⟩
    exact ⟨hg, (h.free g hg).mp hfree⟩
  · rintro ⟨hg, hfree⟩
    exact ⟨hg, (h.free g hg).mpr hfree⟩

theorem Serving.live (h : Serving env st₀ buffer count a j k l st) (hg : g < groupCount count.toNat)
    (hk : k ≤ g) (hfree : st₀.coreState.tracker.isClaimed g = false) :
    st.coreState.tracker.pendingMintsGroupsRemaining ≠ 0 := by
  intro hzero
  have hcard := h.tracking.remaining
  rw [hzero] at hcard
  have hempty := Finset.card_eq_zero.mp hcard.symm
  have hmem := h.mem_freeGroups.mpr ⟨hg, hk, hfree⟩
  rw [hempty] at hmem
  exact absurd hmem (Finset.notMem_empty g)

theorem busy_of_live {m : FinalizedBlockMintTxoManager} (hw : WellFormed m)
    (hlive : m.currentPendingMintsTracker.pendingMintsGroupsRemaining ≠ 0) : m.isEmpty = false := by
  obtain ⟨hlt, -, -⟩ := hw.current hlive
  rw [Bool.eq_false_iff]
  intro hempty
  rcases isEmpty_iff.mp hempty with hzero | ⟨htotal, -⟩
  · rw [hzero] at hlt
    exact absurd hlt (Nat.not_lt_zero _)
  · rw [htotal] at hlt
    exact absurd hlt (Nat.lt_irrefl _)

theorem isEmpty_false_of_live (h : t.pendingMintsGroupsRemaining ≠ 0) :
    t.isEmpty = false := by
  rw [PendingMintsTracker.isEmpty, beq_eq_false_iff_ne]
  exact h

theorem Serving.others (h : Serving env st₀ buffer count a j k l st)
    (hg : Guarded env.platform) (htoken : Harmless env TOKEN_PROGRAM_ID)
    (hz : BridgeEnv.pda env ≠ zeroBytes) (ho : ∀ e ∈ es, OtherParty env e)
    (hlive : st.coreState.tracker.pendingMintsGroupsRemaining ≠ 0)
    (hkeeps : ¬ LockedFor (BridgeEnv.pda env) (l buffer) → l' buffer = l buffer)
    (r : Run (Step env) l es l') :
    ∃ st', Serving env st₀ buffer count a j k l' st' ∧
      st'.coreState.tracker = st.coreState.tracker := by
  obtain ⟨st', hs', hsame, hsetup, hfrozen⟩ :=
    Run.otherParties hg htoken hz ho h.holds (busy_of_live h.wellFormed hlive) r
  have htracker : st'.coreState.tracker = st.coreState.tracker :=
    congrArg currentPendingMintsTracker hsame
  have hbuffer : l' buffer = l buffer := by
    by_cases hlocked : LockedFor (BridgeEnv.pda env) (l buffer)
    · exact hfrozen buffer hlocked
    · exact hkeeps hlocked
  refine ⟨st', ⟨hs', h.setup.trans hsetup, ?_, ?_, ?_, ?_, ?_, ?_⟩, htracker⟩
  · rw [hsame]
    exact h.wellFormed
  · rw [htracker]
    exact h.tracking
  · rw [htracker]
    exact h.account
  · rw [htracker]
    exact h.free
  · rw [htracker, hsame]
    exact h.cursor
  · intro _
    rw [hbuffer]
    exact h.kept hlive

end Serving

section Claims

variable {g : UInt16}

theorem Serving.claims (h : Serving env st₀ buffer count a j k l st) (hgk : g.toNat = k)
    (hbitmap : k < 256) (hin : k < groupCount count.toNat)
    (hfree : st₀.coreState.tracker.isClaimed k = false) :
    ∃ core claim, ClaimsGroup st.coreState g buffer core claim ∧
      (claim.canUnlock = true ↔ ∀ i, k < i → i < groupCount count.toNat →
        st₀.coreState.tracker.isClaimed i = true) := by
  have hlive := h.live hin (Nat.le_refl k) hfree
  have hcount : count.toNat ≠ 0 := by
    have hpos := groupCount_pos.mp (Nat.lt_of_le_of_lt (Nat.zero_le k) hin)
    omega
  have htotal : st.coreState.tracker.totalPendingMints ≠ 0 := by
    rw [h.tracking.total]
    apply toUInt32_ne_zero
    intro hzero
    exact hcount (congrArg UInt16.toNat hzero)
  refine ⟨_, _, ⟨busy_of_live h.wellFormed hlive, htotal, hlive, hgk ▸ hbitmap, ?_, ?_,
    h.account.symm, rfl, rfl⟩, ?_⟩
  · rw [UInt16.lt_iff_toNat_lt, h.tracking.groups, hgk]
    exact hin
  · rw [hgk]
    exact (h.free k hin).mpr ⟨Nat.le_refl k, hfree⟩
  · have hremaining := claim_remaining_toNat (g := g.toNat) hlive
    have hone : (st.coreState.tracker.claim g.toNat).isEmpty = true ↔
        (freeGroups st.coreState.tracker count.toNat).card = 1 := by
      rw [PendingMintsTracker.isEmpty, beq_iff_eq, ← UInt32.toNat_inj,
        show (0 : UInt32).toNat = 0 from rfl, ← h.tracking.remaining]
      omega
    have hmem : k ∈ freeGroups st.coreState.tracker count.toNat :=
      h.mem_freeGroups.mpr ⟨hin, Nat.le_refl k, hfree⟩
    rw [hone, Finset.card_eq_one]
    constructor
    · rintro ⟨x, hx⟩ i hki hi
      by_contra hclaimed
      have hi' : i ∈ freeGroups st.coreState.tracker count.toNat :=
        h.mem_freeGroups.mpr ⟨hi, Nat.le_of_lt hki, Bool.not_eq_true _ ▸ hclaimed⟩
      rw [hx, Finset.mem_singleton] at hi' hmem
      omega
    · intro hall
      refine ⟨k, Finset.eq_singleton_iff_unique_mem.mpr ⟨hmem, ?_⟩⟩
      intro i hi
      obtain ⟨hlt, hki, hunclaimed⟩ := h.mem_freeGroups.mp hi
      by_contra hne
      have hclaimed := hall i (by omega) hlt
      rw [hunclaimed] at hclaimed
      cases hclaimed

theorem Serving.next {core : PsyBridgeProgramState} {claim : GroupClaim}
    (h : Serving env st₀ buffer count a j k l st) (hgk : g.toNat = k)
    (claims : ClaimsGroup st.coreState g buffer core claim)
    (hs' : Holds env l' { st with coreState := core })
    (hbuffer : claim.canUnlock = false → l' buffer = l buffer) :
    Serving env st₀ buffer count a j (k + 1) l' { st with coreState := core } := by
  have htracker : core.tracker = st.coreState.tracker.claim g.toNat := ClaimsGroup.tracker claims
  have hcore : SameSetup st { st with coreState := core } := by
    rw [claims.state]
    exact ⟨rfl, rfl, rfl, rfl, rfl⟩
  refine ⟨hs', h.setup.trans hcore, ClaimsGroup.wellFormed claims h.wellFormed,
    ClaimsGroup.tracking claims h.tracking, claimed_account claims, ?_, ?_, ?_⟩
  · intro i hi
    rw [show ({ st with coreState := core } : BridgeState).coreState.tracker = _ from htracker,
      claim_isClaimed claims.bitmap, Bool.or_eq_false_iff, h.free i hi,
      decide_eq_false_iff_not, hgk]
    constructor
    · rintro ⟨⟨hk, hfree⟩, hne⟩
      exact ⟨by omega, hfree⟩
    · rintro ⟨hk, hfree⟩
      exact ⟨⟨by omega, hfree⟩, by omega⟩
  · have hindex := ClaimsGroup.index claims h.wellFormed
    have hcursor := h.cursor
    rw [if_neg claims.remaining] at hcursor
    rw [hcursor] at hindex
    exact hindex
  · intro hremaining
    have hstays : claim.canUnlock = false := by
      rw [claims.claim, ← htracker]
      exact isEmpty_false_of_live hremaining
    rw [hbuffer hstays]
    exact h.kept claims.remaining

end Claims

section Slices

variable {start : ℕ}

theorem recordList_drop (p n i : ℕ) :
    (recordList mem start p n).drop i = recordList mem start (p + i) (n - i) := by
  rw [recordList, recordList, recordsFrom, recordsFrom, ← List.map_drop, ← List.map_drop,
    List.drop_range', Nat.mul_one]

theorem recordList_append (p n i : ℕ) :
    recordList mem start p n ++ recordList mem start (p + n) i =
      recordList mem start p (n + i) := by
  rw [recordList, recordList, recordList, ← List.map_append, MintLog.recordsFrom_append]

theorem recordList_take {p i : ℕ} (h : i ≤ n) :
    (recordList mem start p n).take i = recordList mem start p i := by
  obtain ⟨r, rfl⟩ := Nat.exists_eq_add_of_le h
  rw [← recordList_append]
  exact List.take_left' (recordList_length p i)

theorem recordList_shift (p n : ℕ) :
    recordList mem (start + 40 * p) 0 n = recordList mem start p n := by
  rw [recordList, recordList, MintLog.recordsFrom_shift]

theorem slice_eq_groupMints (hk : k < groupCount n) :
    ((recordList mem (recordArea n) 0 n).drop (k * 24)).take
      (min (k * 24 + 24) (recordList mem (recordArea n) 0 n).length - k * 24) =
        groupMints mem n k := by
  have harea : recordArea n + 960 * k = recordArea n + 40 * (k * 24) := by omega
  have hsize : min (k * 24 + 24) n - k * 24 = groupSize n k := by
    unfold groupSize
    unfold groupCount at hk
    omega
  have hle : groupSize n k ≤ n - k * 24 := by
    unfold groupSize
    omega
  rw [recordList_length, recordList_drop, hsize, recordList_take hle, Nat.zero_add, groupMints,
    harea, recordList_shift]

end Slices

section Sends

/-- What others do before each transaction: they claim no group, and they leave an unlocked buffer
alone. Nobody can change a locked one. -/
structure Meanwhile (env : BridgeEnv) (buffer : Pubkey) (meanwhile : UInt16 → Ledger → Ledger) :
    Prop where
  steps : ∀ g l, ∃ es, Run (Step env) l es (meanwhile g l) ∧ ∀ e ∈ es, OtherParty env e
  keeps : ∀ g l, ¬ LockedFor (BridgeEnv.pda env) (l buffer) → meanwhile g l buffer = l buffer

def afterOthers (meanwhile : UInt16 → Ledger → Ledger) (l l' : Ledger) : Prop :=
  ∃ g, l' = meanwhile g l

/-- What the loop needs of the instructions that a driver builds. -/
structure Builds (env : BridgeEnv) (now : ℤ) (st₀ : BridgeState) (buffer mint : Pubkey)
    (build : List Pubkey → UInt16 → Bool → Instruction) : Prop where
  lists : ∀ recipients g flag,
    ListsGroup env ((build recipients g flag).invocation now) buffer mint recipients
  sent : ∀ {l l' st} recipients g flag, Holds env l st → SameSetup st₀ st →
    st.coreState.tracker.isEmpty = false →
    (sendAndConfirm env now l (build recipients g flag) = some l' ↔
      GroupRuns env ((build recipients g flag).invocation now) l st g flag buffer mint
        recipients l')

variable {g : UInt16} {flag : Bool}

def LastFree (st₀ : BridgeState) (count : UInt16) (k : ℕ) : Prop :=
  ∀ i, k < i → i < groupCount count.toNat → st₀.coreState.tracker.isClaimed i = true

section Group

variable (hg : Guarded env.platform) (htoken : Harmless env TOKEN_PROGRAM_ID)
  (hz : BridgeEnv.pda env ≠ zeroBytes) (hothers : Meanwhile env buffer meanwhile)
  (hbuilds : Builds env now st₀ buffer mint build) (howner : ofBuffer a.owner)
  (h : Serving env st₀ buffer count a j k l st) (hgk : g.toNat = k) (hbitmap : k < 256)
  (hin : k < groupCount count.toNat) (hfree : st₀.coreState.tracker.isClaimed k = false)

include hg htoken hz hothers h hgk hbitmap hin hfree

/-- What the others leave to the driver: a group that it can still claim, in the same block. -/
theorem Serving.reached :
    ∃ st₁ core claim, Serving env st₀ buffer count a j k (meanwhile g l) st₁ ∧
      st₁.coreState.tracker.isEmpty = false ∧ meanwhile g l buffer = a ∧
      ClaimsGroup st₁.coreState g buffer core claim ∧
      (claim.canUnlock = true ↔ LastFree st₀ count k) := by
  have hlive := h.live hin (Nat.le_refl k) hfree
  obtain ⟨es, hrun, hparty⟩ := hothers.steps g l
  obtain ⟨st₁, h₁, htracker⟩ := h.others hg htoken hz hparty hlive (hothers.keeps g l) hrun
  obtain ⟨core, claim, claims, hlast⟩ := h₁.claims hgk hbitmap hin hfree
  refine ⟨st₁, core, claim, h₁, ?_, h₁.kept (htracker ▸ hlive), claims, hlast⟩
  rw [htracker]
  exact isEmpty_false_of_live hlive

include hbuilds howner

theorem Serving.accepted {rest : List PendingMint}
    (hlong : recordArea count.toNat + 40 * count.toNat ≤ a.data.length)
    (hflag : flag = true ↔ LastFree st₀ count k)
    (hlocked : flag = true → LockedFor (BridgeEnv.pda env) a)
    (hsucceed : MintsSucceed env buffer mint (afterOthers meanwhile)
      (groupMints a.data count.toNat k ++ rest) l) :
    ∃ l' st', sendAndConfirm env now (meanwhile g l)
        (build ((groupMints a.data count.toNat k).map (·.recipient)) g flag) = some l' ∧
      Serving env st₀ buffer count a j (k + 1) l' st' ∧
      MintsSucceed env buffer mint (afterOthers meanwhile) rest l' := by
  obtain ⟨st₁, core, claim, h₁, hempty, hbuffer, claims, hlast⟩ :=
    h.reached hg htoken hz hothers hgk hbitmap hin hfree
  have hcan : claim.canUnlock = flag := by
    rw [Bool.eq_iff_iff, hlast, hflag]
  have hsucceed' : MintsSucceed env buffer mint (afterOthers meanwhile)
      (groupMints a.data count.toNat k ++ rest) (meanwhile g l) := hsucceed.later (.other ⟨g, rfl⟩)
  subst hgk
  rw [← hbuffer] at hsucceed' howner hlong hlocked ⊢
  obtain ⟨l', hruns, hs', hrest, hkept⟩ := groupRuns_of hg htoken h₁.holds claims h₁.tracking howner
    hlong (hbuilds.lists _ g flag) (fun hf => hlocked (hcan ▸ hf)) hsucceed'
  rw [hcan] at hruns
  exact ⟨l', _, (hbuilds.sent _ g flag h₁.holds h₁.setup hempty).mpr hruns,
    hbuffer ▸ h₁.next rfl claims hs' hkept, hrest⟩

theorem Serving.rejected (recipients : List Pubkey)
    (hflag : ¬ ((flag = true ↔ LastFree st₀ count k) ∧
      (flag = true → LockedFor (BridgeEnv.pda env) a))) :
    sendAndConfirm env now (meanwhile g l) (build recipients g flag) = none := by
  obtain ⟨st₁, core, claim, h₁, hempty, hbuffer, claims, hlast⟩ :=
    h.reached hg htoken hz hothers hgk hbitmap hin hfree
  rw [Option.eq_none_iff_forall_ne_some]
  intro l' hsent
  have hruns := (hbuilds.sent _ g flag h₁.holds h₁.setup hempty).mp hsent
  refine hflag ⟨?_, ?_⟩
  · obtain ⟨core', claim', _, claims', hcan, -⟩ := hruns
    have hsame : claim' = claim := claims'.claim.trans claims.claim.symm
    rw [← hcan, hsame, hlast]
  · rintro rfl
    rw [← hbuffer] at howner ⊢
    exact hruns.locked htoken h₁.holds howner

end Group

end Sends

section Loop

variable {send : Ledger → Instruction → Option Ledger} {pendingMints : List PendingMint}
  {g : UInt16} {rest : List UInt16}

theorem processGroups_claimed (hclaimed : t.isClaimed g.toNat = true) :
    processGroups send meanwhile t pendingMints build (g :: rest) d =
      processGroups send meanwhile t pendingMints build rest d := by
  rw [processGroups, isPendingMintsGroupAlreadyClaimed_ok.mpr ⟨isClaimed_lt hclaimed, hclaimed⟩]

theorem processGroups_panics (hg : 256 ≤ g.toNat) :
    processGroups send meanwhile t pendingMints build (g :: rest) d = (d, .panicked) := by
  rw [processGroups]
  cases hclaimed : t.isPendingMintsGroupAlreadyClaimed g with
  | error => rfl
  | ok b =>
    have hlt := (isPendingMintsGroupAlreadyClaimed_ok.mp hclaimed).1
    omega

/-- What the driver sends for a group that it saw unclaimed, given the mints of the block. -/
theorem processGroups_sends (hgk : g.toNat = k) (hbitmap : k < 256)
    (hin : k < groupCount n) (hfree : t.isClaimed k = false) :
    processGroups send meanwhile t (recordList mem (recordArea n) 0 n) build (g :: rest) d =
      match send (meanwhile g d.ledger) (build ((groupMints mem n k).map (·.recipient)) g
        (g == t.getCurrentTotalPendingMintsGroups - 1)) with
      | none => ({ d with
          ledger := meanwhile g d.ledger
          sent := d.sent ++ [(build ((groupMints mem n k).map (·.recipient)) g
            (g == t.getCurrentTotalPendingMintsGroups - 1), false)] }, .failed)
      | some l' => processGroups send meanwhile t (recordList mem (recordArea n) 0 n) build rest
          ⟨l', d.sent ++ [(build ((groupMints mem n k).map (·.recipient)) g
            (g == t.getCurrentTotalPendingMintsGroups - 1), true)], d.groupsProcessed + 1,
            d.totalMintsProcessed + (groupMints mem n k).length⟩ := by
  subst hgk
  have hrange : ¬ min (g.toNat * 24 + 24) (recordList mem (recordArea n) 0 n).length <
      g.toNat * 24 := by
    rw [recordList_length]
    unfold groupCount at hin
    omega
  rw [processGroups, isPendingMintsGroupAlreadyClaimed_ok.mpr ⟨hbitmap, hfree⟩]
  dsimp only
  rw [if_neg hrange, slice_eq_groupMints hin]

def groupsFrom (k m : ℕ) : List UInt16 := (List.range' k m).map UInt16.ofNat

theorem groupsFrom_succ (k m : ℕ) : groupsFrom k (m + 1) = UInt16.ofNat k :: groupsFrom (k + 1) m :=
  rfl

theorem processGroups_skips (hfew : k + m ≤ 65536)
    (hclaimed : ∀ i, k ≤ i → i < k + m → t.isClaimed i = true) :
    processGroups send meanwhile t pendingMints build (groupsFrom k m) d =
      (d, .completed ⟨d.groupsProcessed, d.totalMintsProcessed, true⟩) := by
  induction m generalizing k with
  | zero => rfl
  | succ m ih =>
    have hk : (UInt16.ofNat k).toNat = k := UInt16.toNat_ofNat_of_lt' (by omega : k < 2 ^ 16)
    rw [groupsFrom_succ, processGroups_claimed (hk.symm ▸ hclaimed k (Nat.le_refl k) (by omega))]
    exact ih (by omega) fun i hi hlt => hclaimed i (by omega) (by omega)

end Loop

section Reliable

def BlockClaimed (env : BridgeEnv) (l : Ledger) (j n : ℕ) : Prop :=
  ∃ st, Holds env l st ∧ j < st.coreState.pendingMintTxos.pendingFinalizedInfoCurrentIndex.toNat ∧
    ∀ g < groupCount n, st.coreState.tracker.isClaimed g = true

/-- What is asked of a driver: the bridge accepts what it sends, and when it reports completion the
block is done. -/
structure Reliable (env : BridgeEnv) (j n : ℕ) (r : Driven × Outcome) : Prop where
  accepted : ∀ s ∈ r.1.sent, s.2 = true
  complete : ∀ result, r.2 = .completed result → result.fullyCompleted = true →
    BlockClaimed env r.1.ledger j n

def mintsFrom (t : PendingMintsTracker) (mem : Bytes) (n k m : ℕ) : List PendingMint :=
  ((List.range' k m).filter fun g => !t.isClaimed g).flatMap (groupMints mem n)

theorem mintsFrom_claimed (h : t.isClaimed k = true) :
    mintsFrom t mem n k (m + 1) = mintsFrom t mem n (k + 1) m := by
  rw [mintsFrom, List.range'_succ, List.filter_cons_of_neg (by rw [h]; decide), mintsFrom]

theorem mintsFrom_free (h : t.isClaimed k = false) :
    mintsFrom t mem n k (m + 1) = groupMints mem n k ++ mintsFrom t mem n (k + 1) m := by
  rw [mintsFrom, List.range'_succ, List.filter_cons_of_pos (by rw [h]; decide), List.flatMap_cons,
    mintsFrom]

theorem Serving.skip (h : Serving env st₀ buffer count a j k l st)
    (hclaimed : st₀.coreState.tracker.isClaimed k = true) :
    Serving env st₀ buffer count a j (k + 1) l st := by
  refine { h with free := fun g hg => ?_ }
  rw [h.free g hg]
  constructor
  · rintro ⟨hk, hfree⟩
    refine ⟨?_, hfree⟩
    by_contra hlt
    have hgk : g = k := by omega
    rw [hgk, hclaimed] at hfree
    cases hfree
  · rintro ⟨hk, hfree⟩
    exact ⟨by omega, hfree⟩

theorem Serving.done (h : Serving env st₀ buffer count a j (groupCount count.toNat) l st) :
    BlockClaimed env l j count.toNat := by
  have hclaimed : ∀ g < groupCount count.toNat, st.coreState.tracker.isClaimed g = true := by
    intro g hg
    rw [← Bool.not_eq_false, h.free g hg]
    rintro ⟨hle, -⟩
    omega
  have hempty : freeGroups st.coreState.tracker count.toNat = ∅ := by
    rw [Finset.eq_empty_iff_forall_notMem]
    intro g hmem
    have hfree := h.mem_freeGroups.mp hmem
    omega
  have hremaining := h.tracking.remaining
  rw [hempty, Finset.card_empty] at hremaining
  have hcursor := h.cursor
  rw [if_pos (UInt32.toNat_inj.mp hremaining)] at hcursor
  exact ⟨st, h.holds, by omega, hclaimed⟩

theorem lastGroup_iff {g : UInt16} (ht : Tracking t count)
    (hin : g.toNat < groupCount count.toNat) :
    (g == t.getCurrentTotalPendingMintsGroups - 1) = true ↔
      g.toNat + 1 = groupCount count.toNat := by
  have hgroups := ht.groups
  have hone : (1 : UInt16).toNat = 1 := rfl
  have hle : (1 : UInt16) ≤ t.getCurrentTotalPendingMintsGroups := by
    rw [UInt16.le_iff_toNat_le, hgroups, hone]
    omega
  rw [beq_iff_eq, ← UInt16.toNat_inj, UInt16.toNat_sub_of_le _ _ hle, hgroups, hone]
  omega

/-- Whether the loop may send the last group as the last one. -/
structure Served (env : BridgeEnv) (st₀ : BridgeState) (count : UInt16) (a : Account) : Prop where
  lastFree : st₀.coreState.tracker.isClaimed (groupCount count.toNat - 1) = false
  locked : LockedFor (BridgeEnv.pda env) a ∨ 256 < groupCount count.toNat

theorem groupCount_lt (count : UInt16) : groupCount count.toNat < 65536 := by
  have hlt := count.toNat_lt
  unfold groupCount
  omega

section Proofs

variable (hg : Guarded env.platform) (htoken : Harmless env TOKEN_PROGRAM_ID)
  (hz : BridgeEnv.pda env ≠ zeroBytes) (hothers : Meanwhile env buffer meanwhile)
  (hbuilds : Builds env now st₀ buffer mint build)
  (howner : ofBuffer a.owner) (hlong : recordArea count.toNat + 40 * count.toNat ≤ a.data.length)
  (ht₀ : Tracking st₀.coreState.tracker count)
include hg htoken hz hothers hbuilds howner hlong ht₀

/-- The loop, if the last group was unclaimed: every group is accepted. -/
theorem loop_reliable (hserved : Served env st₀ count a) (hkm : k + m = groupCount count.toNat)
    (h : Serving env st₀ buffer count a j k d.ledger st) (hsent : ∀ s ∈ d.sent, s.2 = true)
    (hsucceed : MintsSucceed env buffer mint (afterOthers meanwhile)
      (mintsFrom st₀.coreState.tracker a.data count.toNat k m) d.ledger) :
    Reliable env j count.toNat (processGroups (sendAndConfirm env now) meanwhile
      st₀.coreState.tracker (recordList a.data (recordArea count.toNat) 0 count.toNat) build
      (groupsFrom k m) d) := by
  have hmany := groupCount_lt count
  induction m generalizing k d st with
  | zero =>
    obtain rfl : k = groupCount count.toNat := by omega
    exact ⟨hsent, fun result hresult _ => h.done⟩
  | succ m ih =>
    have hk : (UInt16.ofNat k).toNat = k := UInt16.toNat_ofNat_of_lt' (by omega : k < 2 ^ 16)
    have hin : k < groupCount count.toNat := by omega
    rw [groupsFrom_succ]
    by_cases hbitmap : k < 256
    · by_cases hfree : st₀.coreState.tracker.isClaimed k = true
      · rw [processGroups_claimed (hk.symm ▸ hfree)]
        rw [mintsFrom_claimed hfree] at hsucceed
        exact ih (by omega) (h.skip hfree) hsent hsucceed
      · rw [Bool.not_eq_true] at hfree
        rw [mintsFrom_free hfree] at hsucceed
        have hlast := lastGroup_iff ht₀ (g := UInt16.ofNat k) (by omega)
        rw [hk] at hlast
        have hflag : (UInt16.ofNat k == st₀.coreState.tracker.getCurrentTotalPendingMintsGroups -
            1) = true ↔ LastFree st₀ count k := by
          rw [hlast]
          constructor
          · intro heq i hki hi
            omega
          · intro hall
            by_contra hne
            have hclaimed := hall (groupCount count.toNat - 1) (by omega) (by omega)
            rw [hserved.lastFree] at hclaimed
            cases hclaimed
        have hlocked : (UInt16.ofNat k ==
            st₀.coreState.tracker.getCurrentTotalPendingMintsGroups - 1) = true →
            LockedFor (BridgeEnv.pda env) a := by
          intro heq
          have hend := hlast.mp heq
          rcases hserved.locked with hlocked | hbig
          · exact hlocked
          · omega
        obtain ⟨l', st', hsends, h', hrest⟩ := h.accepted hg htoken hz hothers hbuilds howner hk
          hbitmap hin hfree hlong hflag hlocked hsucceed
        rw [processGroups_sends hk hbitmap hin hfree, hsends]
        refine ih (by omega) h' ?_ hrest
        intro s hs
        rcases List.mem_append.mp hs with hs | hs
        · exact hsent s hs
        · rw [List.mem_singleton.mp hs]
    · rw [processGroups_panics (by omega)]
      refine ⟨hsent, fun result hresult => ?_⟩
      cases hresult

/-- The loop, if the last group was claimed before or the buffer is not locked: there are groups
left, and the last of them is refused. -/
theorem loop_refused (hserved : ¬ Served env st₀ count a) (hkm : k + m = groupCount count.toNat)
    (hleft : ∃ i, k ≤ i ∧ i < groupCount count.toNat ∧ st₀.coreState.tracker.isClaimed i = false)
    (h : Serving env st₀ buffer count a j k d.ledger st)
    (hsucceed : MintsSucceed env buffer mint (afterOthers meanwhile)
      (mintsFrom st₀.coreState.tracker a.data count.toNat k m) d.ledger) :
    ∃ s ∈ (processGroups (sendAndConfirm env now) meanwhile st₀.coreState.tracker
      (recordList a.data (recordArea count.toNat) 0 count.toNat) build (groupsFrom k m) d).1.sent,
      s.2 = false := by
  have hmany := groupCount_lt count
  induction m generalizing k d st with
  | zero =>
    obtain ⟨i, hki, hi, -⟩ := hleft
    omega
  | succ m ih =>
    have hk : (UInt16.ofNat k).toNat = k := UInt16.toNat_ofNat_of_lt' (by omega : k < 2 ^ 16)
    have hin : k < groupCount count.toNat := by omega
    have hbitmap : k < 256 := by
      -- beyond 256 groups the last one cannot have been claimed
      by_contra hbig
      refine hserved ⟨?_, .inr (by omega)⟩
      rw [← Bool.not_eq_true]
      intro hclaimed
      have hlt := isClaimed_lt hclaimed
      omega
    rw [groupsFrom_succ]
    by_cases hfree : st₀.coreState.tracker.isClaimed k = true
    · rw [processGroups_claimed (hk.symm ▸ hfree)]
      rw [mintsFrom_claimed hfree] at hsucceed
      refine ih (by omega) ?_ (h.skip hfree) hsucceed
      obtain ⟨i, hki, hi, hi'⟩ := hleft
      refine ⟨i, ?_, hi, hi'⟩
      by_contra hlt
      rw [show i = k by omega, hfree] at hi'
      cases hi'
    · rw [Bool.not_eq_true] at hfree
      rw [mintsFrom_free hfree] at hsucceed
      have hlast := lastGroup_iff ht₀ (g := UInt16.ofNat k) (by omega)
      rw [hk] at hlast
      by_cases haccepts : ((UInt16.ofNat k ==
            st₀.coreState.tracker.getCurrentTotalPendingMintsGroups - 1) = true ↔
            LastFree st₀ count k) ∧ ((UInt16.ofNat k ==
            st₀.coreState.tracker.getCurrentTotalPendingMintsGroups - 1) = true →
            LockedFor (BridgeEnv.pda env) a)
      · obtain ⟨l', st', hsends, h', hrest⟩ := h.accepted hg htoken hz hothers hbuilds howner hk
          hbitmap hin hfree hlong haccepts.1 haccepts.2 hsucceed
        rw [processGroups_sends hk hbitmap hin hfree, hsends]
        refine ih (by omega) ?_ h' hrest
        by_contra hnone
        have hlastFree : LastFree st₀ count k := by
          intro i hki hi
          by_contra hclaimed
          exact hnone ⟨i, hki, hi, Bool.not_eq_true _ ▸ hclaimed⟩
        have hend := haccepts.1.mpr hlastFree
        refine hserved ⟨?_, .inl (haccepts.2 hend)⟩
        rw [← hlast.mp hend, Nat.add_sub_cancel]
        exact hfree
      · have hrejected := h.rejected hg htoken hz hothers hbuilds howner hk hbitmap hin hfree
          ((groupMints a.data count.toNat k).map (·.recipient)) haccepts
        rw [processGroups_sends hk hbitmap hin hfree, hrejected]
        exact ⟨_, List.mem_append_right _ (List.mem_singleton_self _), rfl⟩

end Proofs

end Reliable

section Reachable

variable {env : BridgeEnv} {ix : BridgeInstruction} {s s' : PsyBridgeProgramState} {l l' : Ledger}
  {es : List Event} {st : BridgeState}

def Tracked (s : PsyBridgeProgramState) : Prop := ∃ count, Tracking s.tracker count

theorem BacklogMove.tracked (h : BacklogMove env ix s s') (ht : Tracked s) : Tracked s' := by
  cases h with
  | kept same _ =>
    rw [Tracked, PsyBridgeProgramState.tracker, same]
    exact ht
  | @opens _ _ _ account _ _ count opens _ =>
    refine ⟨count, ?_⟩
    rw [PsyBridgeProgramState.tracker, Opens.tracker opens]
    exact freshTracker_tracking account count
  | claims claims =>
    obtain ⟨count, ht⟩ := ht
    exact ⟨count, ClaimsGroup.tracking claims ht⟩
  | @advances _ _ _ _ _ count _ account _ _ claims =>
    exact ⟨count, ClaimsGroup.tracking claims (freshTracker_tracking account count)⟩

theorem run_tracked (hg : Guarded env.platform) (r : Run (Step env) l es l')
    (once : ∀ e ∈ es, ¬ isInitialize e) (hs : Holds env l st)
    (hw : WellFormed st.coreState.pendingMintTxos) (ht : Tracked st.coreState) :
    ∃ st', Holds env l' st' ∧ WellFormed st'.coreState.pendingMintTxos ∧ Tracked st'.coreState := by
  refine (r.restrict once).invariant (P := fun l => ∃ st', Holds env l st' ∧
    WellFormed st'.coreState.pendingMintTxos ∧ Tracked st'.coreState) ?_ ⟨st, hs, hw, ht⟩
  rintro l e l' ⟨st₁, hs₁, hw₁, ht₁⟩ ⟨hstep, hnot⟩
  obtain ⟨st₂, hs₂, rfl | ⟨call, rfl, -, hmoved⟩⟩ := hstep.holds hg hs₁
  · exact ⟨_, hs₂, hw₁, ht₁⟩
  · refine ⟨st₂, hs₂, StateStep.wellFormed hmoved hw₁,
      BacklogMove.tracked (StateStep.move hmoved ?_ hw₁) ht₁⟩
    intro params hix
    obtain ⟨inv, ix, effects, before, after⟩ := call
    subst hix
    exact hnot trivial

theorem reachable_tracked {init : BridgeCall} {params : InitializeBridgeInstructionData}
    {l₀ l₁ : Ledger} (hg : Guarded env.platform) (begun : Step env l₀ (.bridge init) l₁)
    (isInit : init.ix = .initializeBridge params) (first : (l₀ (BridgeEnv.pda env)).data = [])
    (r : Run (Step env) l₁ es l) (once : ∀ e ∈ es, ¬ isInitialize e) (hs : Holds env l st) :
    WellFormed st.coreState.pendingMintTxos ∧ Tracked st.coreState := by
  have hdefault : Tracked (PsyBridgeProgramState.initialized params) := ⟨0, rfl, rfl⟩
  obtain ⟨st', hs', hw, ht⟩ := run_tracked hg r once (begun.initialized hg isInit first)
    default_wellFormed hdefault
  obtain rfl := Holds.unique hs hs'
  exact ⟨hw, ht⟩

theorem Tracking.all_claimed (h : Tracking t count)
    (hdone : t.pendingMintsGroupsRemaining = 0) {g : ℕ} (hg : g < groupCount count.toNat) :
    t.isClaimed g = true := by
  have hcard := h.remaining
  rw [hdone] at hcard
  have hempty := Finset.card_eq_zero.mp hcard.symm
  by_contra hfree
  have hmem := mem_freeGroups.mpr ⟨hg, Bool.not_eq_true _ ▸ hfree⟩
  rw [hempty] at hmem
  exact absurd hmem (Finset.notMem_empty g)

theorem Minting.unique {m : FinalizedBlockMintTxoManager} {j j' : ℕ}
    {e e' : FinalizedBlockMintTxoInfo} (h : Minting m j e) (h' : Minting m j' e') : j = j' := by
  rcases Nat.lt_trichotomy j j' with hlt | heq | hlt
  · have hempty := h'.skipped j e h.after hlt h.entry
    rw [h.nonempty] at hempty
    cases hempty
  · exact heq
  · have hempty := h.skipped j' e' h'.after hlt h'.entry
    rw [h'.nonempty] at hempty
    cases hempty

end Reachable

section Samples

open LocalCluster RecordedBuffer CommittedMints

variable {l : Ledger} {core : PsyBridgeProgramState}

theorem between_kept {buffer k : Pubkey} (hk : k ≠ BridgeEnv.pda env) (hbuffer : k ≠ buffer)
    (h : Between env buffer (afterOthers fun _ l => l) l l') : l' k = l k := by
  induction h with
  | refl => rfl
  | tail _ hstep ih =>
    rcases hstep with hown | ⟨_, rfl⟩
    · rw [hown k hk hbuffer, ih]
    · exact ih

theorem deposit_succeeds (hm : l mintKey = mintAccount bridgeState 0)
    (hr : l recipientKey = tokenAccount mintKey operatorKey 0) :
    MintsSucceed cluster mintBufferKey mintKey (afterOthers fun _ l => l)
      [⟨recipientKey, 990⟩] l := by
  refine ⟨by decide, by decide, ?_⟩
  intro l₁ hbetween
  have hkept {k : Pubkey} (hpda : k ≠ bridgeState) (hbuffer : k ≠ mintBufferKey) : l₁ k = l k :=
    between_kept (ne_pda hpda) hbuffer hbetween
  obtain ⟨l₂, hran⟩ := cluster_mint (l := l₁) 990 rfl cluster_pda
    ((hkept (by decide) (by decide)).trans hm) ((hkept (by decide) (by decide)).trans hr)
  exact ⟨l₂, hran, trivial⟩

theorem deposit_groupMints : groupMints (mintBuffer 1 depositArea) 1 0 = [⟨recipientKey, 990⟩] := by
  decide +kernel

theorem nobody_meanwhile (env : BridgeEnv) (buffer : Pubkey) :
    Meanwhile env buffer fun _ l => l :=
  ⟨fun _ l => ⟨[], .nil l, List.forall_mem_nil _⟩, fun _ _ _ => rfl⟩

def secondBufferKey : Pubkey := Vector.replicate 32 9

def operatorLedger : Ledger :=
  Function.update (Function.update
    (Function.update depositLedger mintKey (mintAccount bridgeState 0))
    recipientKey (tokenAccount mintKey operatorKey 0)) secondBufferKey
    ⟨PENDING_MINT_BUFFER_BUILDER_PROGRAM_ID, openBuffer 1 depositArea⟩

theorem operatorLedger_mints : operatorLedger mintBufferKey =
    ⟨PENDING_MINT_BUFFER_BUILDER_PROGRAM_ID, openBuffer 1 depositArea⟩ := by
  have hsecond : mintBufferKey ≠ secondBufferKey := by decide
  have hrecipient : mintBufferKey ≠ recipientKey := by decide
  have hmint : mintBufferKey ≠ mintKey := by decide
  rw [operatorLedger, Function.update_of_ne hsecond, Function.update_of_ne hrecipient,
    Function.update_of_ne hmint]
  exact bufferLedger_mints _ _

theorem operatorLedger_txos : operatorLedger txoBufferKey =
    ⟨TXO_BUFFER_BUILDER_PROGRAM_ID, txoBuffer 11 depositTxos⟩ := by
  have hsecond : txoBufferKey ≠ secondBufferKey := by decide
  have hrecipient : txoBufferKey ≠ recipientKey := by decide
  have hmint : txoBufferKey ≠ mintKey := by decide
  rw [operatorLedger, Function.update_of_ne hsecond, Function.update_of_ne hrecipient,
    Function.update_of_ne hmint]
  exact bufferLedger_txos _ _

theorem operatorLedger_unused :
    operatorLedger (BridgeEnv.pda cluster) = ⟨SYSTEM_PROGRAM_ID, []⟩ := by
  have hsecond : BridgeEnv.pda cluster ≠ secondBufferKey := (ne_pda (by decide)).symm
  have hrecipient : BridgeEnv.pda cluster ≠ recipientKey := (ne_pda (by decide)).symm
  have hmint : BridgeEnv.pda cluster ≠ mintKey := (ne_pda (by decide)).symm
  rw [operatorLedger, Function.update_of_ne hsecond, Function.update_of_ne hrecipient,
    Function.update_of_ne hmint]
  exact bufferLedger_unused _ _

def depositInfo : FinalizedBlockMintTxoInfo := headerInfo (firstHeader 1 depositArea depositTxos)

/-- A reorganisation that brings the deposit and then the block `last`. -/
def twoBlocks (last : FinalizedBlockMintTxoInfo) : BlockUpdateFixedData where
  proof := Vector.replicate 256 0
  header := depositHeader 12 1 last.pendingMintsFinalizedHash last.txoOutputListFinalizedHash

def twoBacklog (last : FinalizedBlockMintTxoInfo) : FinalizedBlockMintTxoManager :=
  FinalizedBlockMintTxoManager.default.opened 11 [depositInfo, last] mintBufferKey 1 1

theorem twoBlocks_backlog (last : FinalizedBlockMintTxoInfo) :
    ReorgBacklog crypto (genesisState operatorKey 10).coreState (twoBlocks last).header
      ([depositInfo] ++ [headerInfo (twoBlocks last).header]) bridgeState mintBufferKey
      (txoBuffer 11 depositTxos) (mintBuffer 1 depositArea) (twoBacklog last) := by
  have hheight : backlogHeight (twoBlocks last).header 2 0 = 11 := by
    change (12 : UInt32) - (UInt32.ofNat 2 - UInt32.ofNat 0 - 1) = 11
    decide
  refine @ReorgBacklog.opens _ _ _ _ _ _ _ _ _ 0 1 Nat.two_pos (List.forall_mem_nil _)
    ⟨rfl, ⟨depositInfo, [last], rfl, by decide +kernel, mintBuffer_matches (by decide) (by decide),
      ?_⟩, Nat.le_add_left 2 6, ?_⟩
  · change TxoBufferMatches crypto _ (backlogHeight (twoBlocks last).header 2 0) _ 1
    rw [hheight]
    exact txoBuffer_matches 11 rfl
  · change twoBacklog last = FinalizedBlockMintTxoManager.default.opened
      (backlogHeight (twoBlocks last).header 2 0) [depositInfo, last] mintBufferKey _ _
    rw [hheight]
    rfl

def twoState (last : FinalizedBlockMintTxoInfo) : BridgeState where
  coreState := { (genesisState operatorKey 10).coreState with
    pendingMintTxos := twoBacklog last, bridgeHeader := (twoBlocks last).header }
  dogeMint := mintKey

theorem twoBlocks_updated (last : FinalizedBlockMintTxoInfo) :
    ∃ es l', BlockUpdated cluster (updateInvocation cluster mintBufferKey txoBufferKey operatorKey)
        (install cluster operatorLedger (genesisState operatorKey 10)) (twoBlocks last)
          [depositInfo]
        253 254 true l' es ∧
      Holds cluster l' (twoState last) ∧
      l' mintBufferKey = ⟨PENDING_MINT_BUFFER_BUILDER_PROGRAM_ID, mintBuffer 1 depositArea⟩ ∧
      ∀ k, k ≠ bridgeState → k ≠ mintBufferKey → l' k = operatorLedger k := by
  have htip : ¬ (12 : UInt32) ≤ 10 := by decide
  have hmintsRead : ((install cluster operatorLedger (genesisState operatorKey 10)).setData
      mintBufferKey (mintBuffer 1 depositArea) mintBufferKey).data = mintBuffer 1 depositArea := by
    rw [setData_self]
  have htxosRead : ((install cluster operatorLedger (genesisState operatorKey 10)).setData
      mintBufferKey (mintBuffer 1 depositArea) txoBufferKey).data = txoBuffer 11 depositTxos := by
    have hne : txoBufferKey ≠ mintBufferKey := by decide
    have hpda : txoBufferKey ≠ BridgeEnv.pda cluster := ne_pda (by decide)
    rw [setData_of_ne hne, install_of_ne hpda, operatorLedger_txos]
  have hlength : 1 = ((12 : UInt32) - 10 - 1).toNat := by decide
  have hbacklog := twoBlocks_backlog last
  rw [← hmintsRead, ← htxosRead] at hbacklog
  have hrun : runTransition cluster ((install cluster operatorLedger
      (genesisState operatorKey 10)).setData mintBufferKey (mintBuffer 1 depositArea))
      (genesisState operatorKey 10) (twoBlocks last).proof (twoBlocks last).header [depositInfo]
      bridgeState mintBufferKey txoBufferKey true = .ok (twoState last).coreState :=
    runTransition_reorg.mpr ⟨⟨rfl, Vector.length_toList, Vector.length_toList, htip,
      Nat.not_lt_zero _⟩, htip, hlength, rfl, _, hbacklog, rfl⟩
  have hraised : autoClaimIndex (genesisState operatorKey 10).coreState ≠
      autoClaimIndex (twoState last).coreState := by
    change (0 : UInt32) ≠ 1
    decide
  exact cluster_update operatorLedger_mints operatorLedger_txos hrun hraised

def depositInstruction : Instruction :=
  processMintGroupInstruction cluster.platform DOGE_BRIDGE_PROGRAM_ID operatorKey mintBufferKey
    mintKey [recipientKey] 0 253 true

theorem deposit_sent (last : FinalizedBlockMintTxoInfo) (hs : Holds cluster l (twoState last))
    (hbuffer : l mintBufferKey = ⟨PENDING_MINT_BUFFER_BUILDER_PROGRAM_ID, mintBuffer 1 depositArea⟩)
    (hm : l mintKey = mintAccount bridgeState 0)
    (hr : l recipientKey = tokenAccount mintKey operatorKey 0) :
    ∃ es l', Step cluster l (.bridge
        ⟨depositInstruction.invocation 0, .processMintGroup 0 253 true, es, l, l'⟩) l' ∧
      Holds cluster l' ⟨claimed (twoState last).coreState, mintKey⟩ ∧
      ∀ k, k ≠ mintBufferKey → ofBuffer (l k).owner → l' k = l k := by
  have htracker : (twoState last).coreState.tracker = ⟨mintBufferKey, zeroBytes, 1, 1⟩ := rfl
  have hclaims : ClaimsGroup (twoState last).coreState 0 mintBufferKey
      (claimed (twoState last).coreState) ⟨true, 1, 104⟩ := by
    refine ⟨rfl, ?_, ?_, by decide, ?_, ?_, rfl, rfl, ?_⟩
    all_goals rw [htracker]
    · decide
    · decide
    · decide
    · decide
    · rw [GroupClaim.mk.injEq]
      decide
  have htracking : Tracking (twoState last).coreState.tracker 1 :=
    freshTracker_tracking mintBufferKey 1
  have hlists : ListsGroup cluster (depositInstruction.invocation 0) mintBufferKey mintKey
      ((groupMints (l mintBufferKey).data 1 0).map (·.recipient)) := by
    rw [hbuffer, deposit_groupMints]
    exact processMintGroup_lists
  have hlocked : LockedFor (BridgeEnv.pda cluster) (l mintBufferKey) := by
    rw [hbuffer]
    exact deposit_lockedFor
  have hsucceed : MintsSucceed cluster mintBufferKey mintKey (afterOthers fun _ l => l)
      (groupMints (l mintBufferKey).data 1 0 ++ []) l := by
    rw [hbuffer, deposit_groupMints]
    exact deposit_succeeds hm hr
  have hlong : recordArea 1 + 40 * 1 ≤ (l mintBufferKey).data.length := by
    rw [hbuffer]
    decide +kernel
  obtain ⟨l', hruns, hs', -, -⟩ := groupRuns_of cluster_guarded cluster_token hs hclaims htracking
    hlocked.owner hlong hlists (fun _ => hlocked) hsucceed
  have hrecipients : (groupMints (l mintBufferKey).data (UInt16.toNat 1) (UInt16.toNat 0)).map
      (·.recipient) = [recipientKey] := by
    rw [hbuffer]
    exact congrArg (List.map (·.recipient)) deposit_groupMints
  rw [hrecipients] at hruns
  obtain ⟨es, hran⟩ := sendAndConfirm_eq_some.mp ((processMintGroup_sent hs rfl rfl).mpr hruns)
  exact ⟨es, l', .bridge rfl
    (InstructionCodec.unpack_instructionData (.processMintGroup 0 253 true))
    hran, hs', fun k hk howner => hruns.elsewhere cluster_token hs hk howner⟩

end Samples

section Main

variable {env : BridgeEnv} {l : Ledger} {st : BridgeState} {now : ℤ} {client : BridgeClient}
  {mintBuffer txoBuffer : Pubkey} {mintBump txoBump : UInt8} {j : ℕ} {count : UInt16}
  {entry : FinalizedBlockMintTxoInfo} {pendingMints : List PendingMint}
  {meanwhile : UInt16 → Ledger → Ledger}

structure ForBridge (client : BridgeClient) (st : BridgeState) : Prop where
  program : client.programId = DOGE_BRIDGE_PROGRAM_ID
  operator : client.operator = st.coreState.accessControl.operatorPubkey
  mint : client.dogeMint.getD st.dogeMint = st.dogeMint

/-- The block to process, at index `j`: the current one or, when it is done, the next one with
mints. The driver is given its mint buffer and the mints in it. -/
structure GivenBlock (env : BridgeEnv) (l : Ledger) (st : BridgeState) (j : ℕ)
    (entry : FinalizedBlockMintTxoInfo) (count : UInt16) (mintBuffer : Pubkey)
    (pendingMints : List PendingMint) : Prop where
  minting : Minting st.coreState.pendingMintTxos j entry
  owner : ofBuffer (l mintBuffer).owner
  mints : MintBufferMatches env.crypto (BridgeEnv.pda env) entry.pendingMintsFinalizedHash
    (l mintBuffer).data count
  records : pendingMints =
    recordList (l mintBuffer).data (recordArea count.toNat) 0 count.toNat
  current : st.coreState.tracker.pendingMintsGroupsRemaining ≠ 0 →
    mintBuffer = st.coreState.tracker.lastFinalizedAutoClaimMintsStorageAccount ∧
    st.coreState.tracker.totalPendingMints = count.toUInt32

variable {build : Pubkey → List Pubkey → UInt16 → Bool → Instruction}

theorem processRemaining_eq (hs : Holds env l st) (hclient : ForBridge client st)
    (hmints : pendingMints ≠ []) :
    processRemaining env now meanwhile client pendingMints build l =
      processGroups (sendAndConfirm env now) meanwhile st.coreState.tracker pendingMints
        (build st.dogeMint)
        (groupsFrom 0 st.coreState.tracker.getCurrentTotalPendingMintsGroups.toNat) (.start l) := by
  have hread : readState l (env.bridgePda client.programId) = .ok st := by
    rw [hclient.program]
    exact readState_ok.mpr (congrArg Account.data hs)
  rw [processRemaining, if_neg hmints, hread]
  dsimp only
  rw [hclient.mint, groupsFrom, ← List.range_eq_range']

/-- While groups of the current block remain, a driver is reliable exactly if it can send the last
group as the last one. -/
theorem live_reliable_iff (hg : Guarded env.platform) (htoken : Harmless env TOKEN_PROGRAM_ID)
    (hz : BridgeEnv.pda env ≠ zeroBytes) (hs : Holds env l st)
    (hw : WellFormed st.coreState.pendingMintTxos) (ht : Tracked st.coreState)
    (hclient : ForBridge client st)
    (given : GivenBlock env l st j entry count mintBuffer pendingMints)
    (hothers : Meanwhile env mintBuffer meanwhile)
    (hbuilds : Builds env now st mintBuffer st.dogeMint (build st.dogeMint))
    (hlive : st.coreState.tracker.pendingMintsGroupsRemaining ≠ 0)
    (hsucceed : MintsSucceed env mintBuffer st.dogeMint (afterOthers meanwhile)
      (mintsFrom st.coreState.tracker (l mintBuffer).data count.toNat 0 (groupCount count.toNat))
        l) :
    Reliable env j count.toNat (processRemaining env now meanwhile client pendingMints build l) ↔
      Served env st count (l mintBuffer) := by
  obtain ⟨haccount, htotal⟩ := given.current hlive
  obtain ⟨count', ht'⟩ := ht
  have hcount : count' = count := by
    have hcast := ht'.total.symm.trans htotal
    have hnat := congrArg UInt32.toNat hcast
    rw [UInt16.toNat_toUInt32, UInt16.toNat_toUInt32] at hnat
    exact UInt16.toNat_inj.mp hnat
  subst hcount
  obtain ⟨_, hminting⟩ := hw.minting hlive
  have hj := Minting.unique given.minting hminting
  obtain ⟨i, hi⟩ : (freeGroups st.coreState.tracker count'.toNat).Nonempty := by
    rw [← Finset.card_pos, ← ht'.remaining]
    exact Nat.pos_of_ne_zero fun hzero => hlive (UInt32.toNat_inj.mp hzero)
  obtain ⟨hin, hfree⟩ := mem_freeGroups.mp hi
  have hne : pendingMints ≠ [] := by
    rw [given.records, ← List.length_pos_iff, recordList_length]
    exact groupCount_pos.mp (by omega)
  have hserving : Serving env st mintBuffer count' (l mintBuffer) j 0
      (Driven.start l).ledger st := by
    refine ⟨hs, .refl st, hw, ht', haccount.symm, ?_, ?_, fun _ => rfl⟩
    · intro g _
      simp
    · rw [if_neg hlive]
      exact hj.symm
  have hlong : recordArea count'.toNat + 40 * count'.toNat ≤ (l mintBuffer).data.length := by
    have hlong := given.mints.long
    rw [recordArea]
    omega
  rw [processRemaining_eq hs hclient hne, ht'.groups, given.records]
  constructor
  · intro hreliable
    by_contra hserved
    obtain ⟨s, hsent, hfalse⟩ :=
      loop_refused hg htoken hz hothers hbuilds given.owner hlong ht' hserved
      (Nat.zero_add _) ⟨i, Nat.zero_le i, hin, hfree⟩ hserving hsucceed
    rw [hreliable.accepted s hsent] at hfalse
    cases hfalse
  · intro hserved
    exact loop_reliable hg htoken hz hothers hbuilds given.owner hlong ht' hserved (Nat.zero_add _)
      hserving (List.forall_mem_nil _) hsucceed

/-- When the current block is done, a driver that is given the next block sends nothing and yet
reports completion. -/
theorem done_not_reliable (hs : Holds env l st) (ht : Tracked st.coreState)
    (hclient : ForBridge client st) (hminting : Minting st.coreState.pendingMintTxos j entry)
    (hdone : st.coreState.tracker.pendingMintsGroupsRemaining = 0) :
    ¬ Reliable env j count.toNat
      (processRemaining env now meanwhile client pendingMints build l) := by
  intro hreliable
  obtain ⟨count', ht'⟩ := ht
  obtain ⟨result, heq, hfull⟩ : ∃ result,
      processRemaining env now meanwhile client pendingMints build l =
        (.start l, .completed result) ∧ result.fullyCompleted = true := by
    by_cases hne : pendingMints = []
    · exact ⟨.empty, by rw [processRemaining, if_pos hne], rfl⟩
    · have hmany := groupCount_lt count'
      refine ⟨⟨0, 0, true⟩, ?_, rfl⟩
      rw [processRemaining_eq hs hclient hne, ht'.groups]
      refine processGroups_skips (by omega) fun g _ hg => ?_
      rw [Nat.zero_add] at hg
      exact Tracking.all_claimed ht' hdone hg
  have hclaimed := hreliable.complete result (by rw [heq]) hfull
  rw [heq] at hclaimed
  obtain ⟨st', hs', hlt, -⟩ := hclaimed
  obtain rfl := Holds.unique hs hs'
  have hafter := hminting.after
  omega

/-- Over all reachable states with a block to process: the drivers are reliable exactly if groups
of the current block remain, its last group among them, and its buffer is locked or has more than
256 groups. -/
theorem drivers_reliable_iff {init : BridgeCall} {params : InitializeBridgeInstructionData}
    {l₀ l₁ : Ledger} {es : List Event} (hg : Guarded env.platform)
    (htoken : Harmless env TOKEN_PROGRAM_ID) (hz : BridgeEnv.pda env ≠ zeroBytes)
    (begun : Step env l₀ (.bridge init) l₁) (isInit : init.ix = .initializeBridge params)
    (first : (l₀ (BridgeEnv.pda env)).data = []) (r : Run (Step env) l₁ es l)
    (once : ∀ e ∈ es, ¬ isInitialize e) (hs : Holds env l st) (hclient : ForBridge client st)
    (given : GivenBlock env l st j entry count mintBuffer pendingMints)
    (hothers : Meanwhile env mintBuffer meanwhile)
    (succeed : st.coreState.tracker.pendingMintsGroupsRemaining ≠ 0 →
      MintsSucceed env mintBuffer st.dogeMint (afterOthers meanwhile)
        (mintsFrom st.coreState.tracker
        (l mintBuffer).data count.toNat 0 (groupCount count.toNat)) l) :
    (st.coreState.tracker.pendingMintsGroupsRemaining ≠ 0 →
      (Reliable env j count.toNat (processRemainingPendingMintsGroups env now meanwhile client
        pendingMints mintBuffer mintBump l) ↔ Served env st count (l mintBuffer))) ∧
    (Reliable env j count.toNat
      (processRemainingPendingMintsGroupsAutoAdvance env now meanwhile client
        pendingMints mintBuffer mintBump txoBuffer txoBump l) ↔
      st.coreState.tracker.pendingMintsGroupsRemaining ≠ 0 ∧
        Served env st count (l mintBuffer)) := by
  obtain ⟨hw, ht⟩ := reachable_tracked hg begun isInit first r once hs
  constructor
  · intro hlive
    refine live_reliable_iff hg htoken hz hs hw ht hclient given hothers ⟨?_, ?_⟩ hlive
      (succeed hlive)
    · intro recipients g flag
      rw [hclient.program]
      exact processMintGroup_lists
    · intro l l' st' recipients g flag hs' hsame _
      rw [hclient.program]
      exact processMintGroup_sent hs' (hclient.operator.trans hsame.operator.symm) hsame.mint.symm
  · by_cases hlive : st.coreState.tracker.pendingMintsGroupsRemaining = 0
    · refine iff_of_false (done_not_reliable hs ht hclient given.minting hlive) ?_
      exact fun hserved => hserved.1 hlive
    · refine (live_reliable_iff hg htoken hz hs hw ht hclient given hothers ⟨?_, ?_⟩ hlive
        (succeed hlive)).trans (and_iff_right hlive).symm
      · intro recipients g flag
        rw [hclient.program]
        exact processMintGroupAutoAdvance_lists
      · intro l l' st' recipients g flag hs' _ hempty
        rw [hclient.program]
        exact processMintGroupAutoAdvance_sent hs' hempty

end Main

section Runs

open LocalCluster RecordedBuffer CommittedMints

variable {l : Ledger}

def operatorClient : BridgeClient := ⟨DOGE_BRIDGE_PROGRAM_ID, operatorKey, none⟩

theorem twoState_given (last : FinalizedBlockMintTxoInfo)
    (hbuffer : l mintBufferKey =
      ⟨PENDING_MINT_BUFFER_BUILDER_PROGRAM_ID, mintBuffer 1 depositArea⟩) :
    GivenBlock cluster l (twoState last) 0 depositInfo 1 mintBufferKey [⟨recipientKey, 990⟩] := by
  refine ⟨⟨Nat.zero_le _, Nat.two_pos, ?_, rfl, by decide +kernel⟩, ?_, ?_, ?_, fun _ => ⟨rfl, rfl⟩⟩
  · intro k e _ hk
    exact absurd hk (Nat.not_lt_zero _)
  · rw [hbuffer]
    rfl
  · rw [hbuffer, cluster_pda]
    exact mintBuffer_matches (by decide) (by decide)
  · rw [hbuffer]
    decide +kernel

theorem twoBlocks_run (last : FinalizedBlockMintTxoInfo) :
    ∃ es₁ es₂ l₁ l₂, Step cluster operatorLedger (.bridge (genesisCall es₁ operatorLedger l₁)) l₁ ∧
      Step cluster l₁ (.bridge (reorgCall (twoBlocks last) [depositInfo] es₂ l₁ l₂)) l₂ ∧
      Holds cluster l₂ (twoState last) ∧
      l₂ mintBufferKey = ⟨PENDING_MINT_BUFFER_BUILDER_PROGRAM_ID, mintBuffer 1 depositArea⟩ ∧
      ∀ k, k ≠ bridgeState → k ≠ mintBufferKey → l₂ k = operatorLedger k := by
  obtain ⟨es₁, _, h₁, rfl⟩ := genesis_step operatorLedger_unused
  obtain ⟨es₂, l₂, h₂, hs, hbuffer, hkept⟩ := twoBlocks_updated last
  exact ⟨es₁, es₂, _, l₂, h₁, step_of_accepted rfl (.processReorgBlocks h₂), hs, hbuffer, hkept⟩

theorem operatorClient_for (last : FinalizedBlockMintTxoInfo) :
    ForBridge operatorClient (twoState last) := ⟨rfl, rfl, rfl⟩

theorem deposit_mintsFrom (last : FinalizedBlockMintTxoInfo) :
    mintsFrom (twoState last).coreState.tracker (mintBuffer 1 depositArea) 1 0 1 =
      [⟨recipientKey, 990⟩] := by
  have htracker : (twoState last).coreState.tracker = ⟨mintBufferKey, zeroBytes, 1, 1⟩ := rfl
  rw [htracker]
  decide +kernel

theorem secondBlock_given
    (hbuffer : l secondBufferKey =
      ⟨PENDING_MINT_BUFFER_BUILDER_PROGRAM_ID, openBuffer 1 depositArea⟩) :
    GivenBlock cluster l ⟨claimed (twoState depositInfo).coreState, mintKey⟩ 1 depositInfo 1
      secondBufferKey [⟨recipientKey, 990⟩] := by
  have hmatches : MintBufferMatches cluster.crypto bridgeState depositInfo.pendingMintsFinalizedHash
      (mintBuffer 1 depositArea) 1 := mintBuffer_matches (by decide) (by decide)
  have hopened : openBuffer 1 depositArea = BufferSteps.withHeader (mintBuffer 1 depositArea)
      { mintBufferHeader (mintBuffer 1 depositArea) with isLocked := 0 } := by
    have hheader : mintBufferHeader (mintBuffer 1 depositArea) =
        ⟨bridgeState, operatorKey, 1, 0, 1, 1, 1⟩ := mintBufferHeader_append _ _
    rw [hheader]
    exact (withHeader_append _ _ _).symm
  have hcursor : (FinalizedBlockMintTxoManager.pendingFinalizedInfoCurrentIndex
      (claimed (twoState depositInfo).coreState).pendingMintTxos).toNat = 1 := by
    decide +kernel
  refine ⟨⟨?_, Nat.one_lt_two, ?_, rfl, by decide +kernel⟩, ?_, ?_, ?_, ?_⟩
  · exact hcursor.le
  · intro k e hk hlt
    rw [hcursor] at hk
    omega
  · rw [hbuffer]
    rfl
  · rw [hbuffer, cluster_pda, hopened]
    exact MintBufferMatches.locked hmatches
  · rw [hbuffer]
    decide +kernel
  · intro hlive
    exact absurd (by decide +kernel) hlive

/-- After a reorganisation whose first block has one deposit, both drivers mint it. -/
theorem reorg_deposit_driven :
    ∃ es₁ es₂ l₁ l₂, Step cluster operatorLedger (.bridge (genesisCall es₁ operatorLedger l₁)) l₁ ∧
      Step cluster l₁ (.bridge (reorgCall (twoBlocks depositInfo) [depositInfo] es₂ l₁ l₂)) l₂ ∧
      Holds cluster l₂ (twoState depositInfo) ∧
      Reliable cluster 0 1 (processRemainingPendingMintsGroups cluster 0 (fun _ l => l)
        operatorClient [⟨recipientKey, 990⟩] mintBufferKey 253 l₂) ∧
      Reliable cluster 0 1 (processRemainingPendingMintsGroupsAutoAdvance cluster 0 (fun _ l => l)
        operatorClient [⟨recipientKey, 990⟩] mintBufferKey 253 txoBufferKey 254 l₂) := by
  obtain ⟨es₁, es₂, l₁, l₂, h₁, h₂, hs, hbuffer, hkept⟩ := twoBlocks_run depositInfo
  have hne : BridgeEnv.pda cluster ≠ zeroBytes := (ne_pda (by decide)).symm
  have hm : l₂ mintKey = mintAccount bridgeState 0 := hkept _ (by decide) (by decide)
  have hr : l₂ recipientKey = tokenAccount mintKey operatorKey 0 := hkept _ (by decide) (by decide)
  have hsucceed : MintsSucceed cluster mintBufferKey mintKey (afterOthers fun _ l => l)
      (mintsFrom (twoState depositInfo).coreState.tracker (l₂ mintBufferKey).data 1 0 1) l₂ := by
    rw [hbuffer, deposit_mintsFrom]
    exact deposit_succeeds hm hr
  have hserved : Served cluster (twoState depositInfo) 1 (l₂ mintBufferKey) := by
    rw [hbuffer]
    exact ⟨by decide +kernel, .inl deposit_lockedFor⟩
  have hlive : (twoState depositInfo).coreState.tracker.pendingMintsGroupsRemaining ≠ 0 := by decide
  obtain ⟨hdirect, hauto⟩ := drivers_reliable_iff cluster_guarded cluster_token hne h₁ rfl
    (congrArg Account.data operatorLedger_unused) (.single h₂) (List.forall_mem_singleton.mpr id) hs
    (operatorClient_for _) (twoState_given _ hbuffer) (nobody_meanwhile _ _) fun _ => hsucceed
  exact ⟨es₁, es₂, l₁, l₂, h₁, h₂, hs, (hdirect hlive).mpr hserved, hauto.mpr ⟨hlive, hserved⟩⟩

/-- Once it is minted, the driver that is given the deposit of the next block does nothing and
reports completion. -/
theorem next_deposit_not_driven :
    ∃ es₁ es₂ es₃ l₁ l₂ l₃,
      Step cluster operatorLedger (.bridge (genesisCall es₁ operatorLedger l₁)) l₁ ∧
      Step cluster l₁ (.bridge (reorgCall (twoBlocks depositInfo) [depositInfo] es₂ l₁ l₂)) l₂ ∧
      Step cluster l₂ (.bridge ⟨depositInstruction.invocation 0, .processMintGroup 0 253 true, es₃,
        l₂, l₃⟩) l₃ ∧
      Holds cluster l₃ ⟨claimed (twoState depositInfo).coreState, mintKey⟩ ∧
      GivenBlock cluster l₃ ⟨claimed (twoState depositInfo).coreState, mintKey⟩ 1 depositInfo 1
        secondBufferKey [⟨recipientKey, 990⟩] ∧
      ¬ Reliable cluster 1 1 (processRemainingPendingMintsGroupsAutoAdvance cluster 0 (fun _ l => l)
        operatorClient [⟨recipientKey, 990⟩] secondBufferKey 253 txoBufferKey 254 l₃) := by
  obtain ⟨es₁, es₂, l₁, l₂, h₁, h₂, hs, hbuffer, hkept⟩ := twoBlocks_run depositInfo
  obtain ⟨es₃, l₃, h₃, hs', hbuffers⟩ := deposit_sent depositInfo hs hbuffer
    (hkept _ (by decide) (by decide)) (hkept _ (by decide) (by decide))
  have hbefore : l₂ secondBufferKey =
      ⟨PENDING_MINT_BUFFER_BUILDER_PROGRAM_ID, openBuffer 1 depositArea⟩ := by
    rw [hkept _ (by decide) (by decide), operatorLedger, Function.update_self]
  have hsecond : l₃ secondBufferKey =
      ⟨PENDING_MINT_BUFFER_BUILDER_PROGRAM_ID, openBuffer 1 depositArea⟩ := by
    rw [hbuffers _ (by decide) (by rw [hbefore]; rfl), hbefore]
  have hgiven := secondBlock_given hsecond
  obtain ⟨-, htracked⟩ := reachable_tracked cluster_guarded h₁ rfl
    (congrArg Account.data operatorLedger_unused) ((Run.single h₂).append (.single h₃))
    (List.forall_mem_append.mpr
      ⟨List.forall_mem_singleton.mpr id, List.forall_mem_singleton.mpr id⟩)
    hs'
  have hclient : ForBridge operatorClient ⟨claimed (twoState depositInfo).coreState, mintKey⟩ :=
    ⟨rfl, rfl, rfl⟩
  have hnot : ¬ Reliable cluster 1 (UInt16.toNat 1) (processRemainingPendingMintsGroupsAutoAdvance
      cluster 0 (fun _ l => l) operatorClient [⟨recipientKey, 990⟩] secondBufferKey 253
        txoBufferKey 254
      l₃) := done_not_reliable hs' htracked hclient hgiven.minting (by decide +kernel)
  exact ⟨es₁, es₂, es₃, l₁, l₂, l₃, h₁, h₂, h₃, hs', hgiven, hnot⟩

end Runs

end MintDriver
