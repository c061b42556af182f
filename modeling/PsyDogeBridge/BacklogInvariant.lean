import PsyDogeBridge.CommittedMints

/-! One invariant of the backlog over whole runs: its cursor, its heights, its blocks, and the
groups of its current block. -/
namespace BacklogInvariant

open PodLayout CheckedSteps SolanaRuntime BridgeData MintGroups PendingMintsTracker
  FinalizedBlockMintTxoManager ProgramState BlockTransition TransitionFacts BridgeCalls
  BridgeProcessor AcceptedInstructions BridgeSystem StateHistory StateRuns BufferLocks BacklogSteps
  MintBacklog CommittedMints

variable {env : BridgeEnv} {ix : BridgeInstruction} {st st' : BridgeState}
  {s s' : PsyBridgeProgramState} {m : FinalizedBlockMintTxoManager} {l l' : Ledger} {e : Event}
  {es : List Event}

def startedCore (s : PsyBridgeProgramState) (j : UInt16) (account : Vector UInt8 32)
    (count : UInt16) : PsyBridgeProgramState :=
  { s with
    pendingMintTxos := started s.pendingMintTxos j account count.toUInt32
      (computeMintGroupInfo count).1.toUInt32 }

inductive BacklogMove (env : BridgeEnv) (ix : BridgeInstruction) (s s' : PsyBridgeProgramState) :
    Prop where
  | kept (same : s'.pendingMintTxos = s.pendingMintTxos)
      (height : s.pendingMintTxos.isEmpty = false → s'.bridgeHeader = s.bridgeHeader)
  | opens {height items bridge account txoMem mintMem count}
      (opens : Opens env.crypto s.pendingMintTxos height items bridge account txoMem mintMem count
        s'.pendingMintTxos)
      (last : height.toNat + items.length =
        s'.bridgeHeader.finalizedState.blockHeight.toNat + 1)
  | claims {g account claim} (claims : ClaimsGroup s g account s' claim)
  | advances {bridge txoMem mintMem j entry count g account claim}
      (next : NextBlock env.crypto s.pendingMintTxos bridge txoMem mintMem j entry count)
      (claims : ClaimsGroup (startedCore s j account count) g account s' claim)

theorem backlogHeight_last {old : UInt32} {header : PsyBridgeHeader} {n first : ℕ}
    (higher : ¬ header.finalizedState.blockHeight ≤ old)
    (length : n = (header.finalizedState.blockHeight - old - 1).toNat + 1) (inside : first < n) :
    (backlogHeight header n first).toNat + (n - first) =
      header.finalizedState.blockHeight.toNat + 1 := by
  have hone : (1 : UInt32).toNat = 1 := rfl
  have hlt : old.toNat < header.finalizedState.blockHeight.toNat :=
    UInt32.lt_iff_toNat_lt.mp (UInt32.not_le.mp higher)
  have hbound := header.finalizedState.blockHeight.toNat_lt
  have hdiff : (header.finalizedState.blockHeight - old).toNat =
      header.finalizedState.blockHeight.toNat - old.toNat :=
    UInt32.toNat_sub_of_le _ _ (UInt32.le_iff_toNat_le.mpr hlt.le)
  have hn : n = header.finalizedState.blockHeight.toNat - old.toNat := by
    rw [length, UInt32.toNat_sub_of_le _ _ (UInt32.le_iff_toNat_le.mpr (by omega)), hdiff, hone]
    omega
  have hback : (UInt32.ofNat n - UInt32.ofNat first - 1).toNat = n - first - 1 := by
    have hofn : (UInt32.ofNat n).toNat = n := UInt32.toNat_ofNat_of_lt' (by omega : n < 2 ^ 32)
    have hoffirst : (UInt32.ofNat first).toNat = first :=
      UInt32.toNat_ofNat_of_lt' (by omega : first < 2 ^ 32)
    have hsub : (UInt32.ofNat n - UInt32.ofNat first).toNat = n - first := by
      rw [UInt32.toNat_sub_of_le _ _ (UInt32.le_iff_toNat_le.mpr (by omega)), hofn, hoffirst]
    rw [UInt32.toNat_sub_of_le _ _ (UInt32.le_iff_toNat_le.mpr (by omega)), hsub, hone]
  rw [backlogHeight, UInt32.toNat_sub_of_le _ _ (UInt32.le_iff_toNat_le.mpr (by omega)), hback]
  omega

theorem StateStep.move (h : StateStep env ix st st')
    (hinit : ∀ params, ix ≠ .initializeBridge params)
    (hw : WellFormed st.coreState.pendingMintTxos) :
    BacklogMove env ix st.coreState st'.coreState := by
  have hupdate := StateStep.update h
  cases h with
  | initializeBridge params => exact absurd rfl (hinit params)
  | blockUpdate run =>
    have hready : st.coreState.pendingMintTxos.isEmpty = true := run.header.ready
    obtain ⟨_, _, hbacklog, -, rfl⟩ := run.update
    cases hbacklog with
    | kept _ _ eq =>
      refine .kept eq fun hbusy => ?_
      rw [hready] at hbusy
      cases hbusy
    | opens _ _ opens => exact .opens opens rfl
  | processReorgBlocks run =>
    have hready : st.coreState.pendingMintTxos.isEmpty = true := run.header.ready
    obtain ⟨_, hbacklog, rfl⟩ := run.update
    cases hbacklog with
    | kept _ eq =>
      refine .kept eq fun hbusy => ?_
      rw [hready] at hbusy
      cases hbusy
    | opens inside _ opens =>
      refine .opens opens ?_
      rw [List.length_drop]
      refine backlogHeight_last run.height ?_ inside
      rw [List.length_append, List.length_singleton, run.length]
  | processMintGroup run => exact .claims run
  | processMintGroupAutoAdvance setup run =>
    rcases setup with rfl | ⟨bridge, txoMem, mintMem, hsetup⟩
    · exact .claims run
    · obtain ⟨j, entry, count, hnext, rfl⟩ := (runSetupNextPendingBuffer_ok hw.few).mp hsetup
      exact .advances hnext run
  | _ =>
    cases hupdate
    exact .kept rfl fun _ => rfl

section Groups

variable {c : Crypto} {t : PendingMintsTracker} {entry : FinalizedBlockMintTxoInfo} {count : UInt16}

def setBits (t : PendingMintsTracker) : ℕ :=
  ((Finset.range 256).filter fun g => t.isClaimed g = true).card

def HasMints (c : Crypto) (entry : FinalizedBlockMintTxoInfo) (count : UInt16) : Prop :=
  ∃ hashes : Bytes, hashes.length = 32 * groupCount count.toNat ∧
    entry.pendingMintsFinalizedHash = c.sha256 (Pod.u16.encode count ++ hashes)

variable {bridge account : Vector UInt8 32} {mintMem txoMem : Bytes} {claim : GroupClaim}

theorem hasMints_of_matches {mem : Bytes}
    (h : MintBufferMatches c bridge entry.pendingMintsFinalizedHash mem count) :
    HasMints c entry count := by
  have hlong := h.long
  refine ⟨slice mem 72 (groupCount count.toNat * 32), ?_, ?_⟩
  · rw [slice_length (by omega), Nat.mul_comm]
  · rw [h.hash, hashed_part (by omega), h.count_eq]

structure CurrentBlock (c : Crypto) (m : FinalizedBlockMintTxoManager)
    (entry : FinalizedBlockMintTxoInfo) (count : UInt16) : Prop where
  atCursor : m.pendingFinalizedInfo[m.pendingFinalizedInfoCurrentIndex.toNat]? = some entry
  mints : HasMints c entry count
  tracking : Tracking m.currentPendingMintsTracker count
  inside : ∀ g, m.currentPendingMintsTracker.isClaimed g = true → g < groupCount count.toNat

theorem isClaimed_lt {g : ℕ} (h : t.isClaimed g = true) : g < 256 := by
  unfold isClaimed at h
  split at h
  · omega
  · cases h

theorem CurrentBlock.groups (h : CurrentBlock c m entry count) :
    m.currentPendingMintsTracker.pendingMintsGroupsRemaining.toNat +
      setBits m.currentPendingMintsTracker = groupCount count.toNat := by
  have hsame : (Finset.range 256).filter
        (fun g => m.currentPendingMintsTracker.isClaimed g = true) =
      (Finset.range (groupCount count.toNat)).filter fun g =>
        ¬ m.currentPendingMintsTracker.isClaimed g = false := by
    ext g
    rw [Finset.mem_filter, Finset.mem_filter, Finset.mem_range, Finset.mem_range,
      Bool.not_eq_false]
    constructor
    · exact fun hg => ⟨h.inside g hg.2, hg.2⟩
    · exact fun hg => ⟨isClaimed_lt hg.2, hg.2⟩
  rw [h.tracking.remaining, setBits, hsame, freeGroups, Finset.card_filter_add_card_filter_not,
    Finset.card_range]

def Counted (c : Crypto) (m : FinalizedBlockMintTxoManager) : Prop :=
  m.currentPendingMintsTracker.pendingMintsGroupsRemaining ≠ 0 →
    ∃ entry count, CurrentBlock c m entry count

/-- The last block of a backlog that is not done is the one that the header finalized. -/
def EndsAtHeader (s : PsyBridgeProgramState) : Prop :=
  s.pendingMintTxos.isEmpty = false →
    s.pendingMintTxos.startBlockHeight.toNat +
      s.pendingMintTxos.pendingFinalizedInfoTotalCount.toNat =
      s.bridgeHeader.finalizedState.blockHeight.toNat + 1

theorem Opens.counted {m' : FinalizedBlockMintTxoManager} {height : UInt32}
    {items : List FinalizedBlockMintTxoInfo}
    (h : Opens c m height items bridge account txoMem mintMem count m') :
    Counted c m' := by
  obtain ⟨entry, rest, hitems, -, hmints, -⟩ := h.head
  have hpos : 0 < items.length := by
    rw [hitems]
    exact Nat.succ_pos _
  have hindex : m'.pendingFinalizedInfoCurrentIndex.toNat = 0 := by
    rw [h.eq]
    rfl
  have hfirst : items[0] = entry := by simp [hitems]
  refine fun _ => ⟨entry, count, ?_, hasMints_of_matches hmints, ?_, ?_⟩
  · rw [hindex, Opens.entry h hpos, hfirst]
  · rw [Opens.tracker h]
    exact freshTracker_tracking account count
  · intro g hg
    rw [Opens.tracker h, freshTracker_free] at hg
    cases hg

theorem NextBlock.counted {j : UInt16}
    (h : NextBlock c s.pendingMintTxos bridge txoMem mintMem j entry count) :
    Counted c (startedCore s j account count).pendingMintTxos := by
  refine fun _ => ⟨entry, count, h.entry, hasMints_of_matches h.mints,
    freshTracker_tracking account count, ?_⟩
  intro g hg
  rw [show (startedCore s j account count).pendingMintTxos.currentPendingMintsTracker =
    freshTracker account count from rfl, freshTracker_free] at hg
  cases hg

theorem ClaimsGroup.counted {g : UInt16} (h : ClaimsGroup s g account s' claim)
    (hw : WellFormed s.pendingMintTxos) (hc : Counted c s.pendingMintTxos) :
    Counted c s'.pendingMintTxos := by
  intro hrem
  obtain ⟨entry, count, hcurrent⟩ := hc h.remaining
  have hindex := ClaimsGroup.index h hw
  rw [if_neg hrem] at hindex
  have htracker : s'.pendingMintTxos.currentPendingMintsTracker = s.tracker.claim g.toNat :=
    ClaimsGroup.tracker h
  refine ⟨entry, count, ?_, hcurrent.mints, ClaimsGroup.tracking h hcurrent.tracking, ?_⟩
  · rw [(ClaimsGroup.sameBlocks h).info, hindex]
    exact hcurrent.atCursor
  · intro k hk
    rw [htracker, claim_isClaimed h.bitmap, Bool.or_eq_true, decide_eq_true_eq] at hk
    rcases hk with hk | rfl
    · exact hcurrent.inside k hk
    · exact ClaimsGroup.inGroup h hcurrent.tracking

theorem ClaimsGroup.endsAtHeader {g : UInt16} (h : ClaimsGroup s g account s' claim)
    (hends : EndsAtHeader s) : EndsAtHeader s' := by
  intro _
  have hsame := ClaimsGroup.sameBlocks h
  have hheader : s'.bridgeHeader = s.bridgeHeader := by rw [h.state]
  rw [hsame.height, hsame.total, hheader]
  exact hends h.busy

end Groups

structure Sound (c : Crypto) (s : PsyBridgeProgramState) : Prop where
  wellFormed : WellFormed s.pendingMintTxos
  counted : Counted c s.pendingMintTxos
  ends : EndsAtHeader s

theorem initialized_sound {c : Crypto} (params : InitializeBridgeInstructionData) :
    Sound c (PsyBridgeProgramState.initialized params) := by
  refine ⟨default_wellFormed, fun h => absurd rfl h, fun h => ?_⟩
  cases h

theorem BacklogMove.sound (h : BacklogMove env ix s s') (hs : Sound env.crypto s)
    (hw : WellFormed s'.pendingMintTxos) : Sound env.crypto s' := by
  cases h with
  | kept same height =>
    refine ⟨hw, ?_, ?_⟩
    · rw [same]
      exact hs.counted
    · intro hbusy
      rw [same] at hbusy ⊢
      rw [height hbusy]
      exact hs.ends hbusy
  | opens opens last =>
    refine ⟨hw, Opens.counted opens, fun _ => ?_⟩
    rw [Opens.height opens, Opens.total opens]
    exact last
  | claims claims =>
    exact ⟨hw, ClaimsGroup.counted claims hs.wellFormed hs.counted,
      ClaimsGroup.endsAtHeader claims hs.ends⟩
  | advances next claims =>
    exact ⟨hw, ClaimsGroup.counted claims (NextBlock.wellFormed hs.wellFormed next)
      (NextBlock.counted next), ClaimsGroup.endsAtHeader claims fun _ => hs.ends next.busy⟩

theorem run_sound {l₁ : Ledger} (hg : Guarded env.platform) (r : Run (Step env) l₁ es l)
    (hinit : ∀ e ∈ es, ¬ isInitialize e) (hs : Holds env l₁ st)
    (hsound : Sound env.crypto st.coreState)
    (hcommitted : Committed env [] st.coreState.pendingMintTxos) :
    ∃ st', Holds env l st' ∧ Sound env.crypto st'.coreState ∧
      Committed env es st'.coreState.pendingMintTxos := by
  refine (r.restrict hinit).history (P := fun _ es l => ∃ st', Holds env l st' ∧
    Sound env.crypto st'.coreState ∧ Committed env es st'.coreState.pendingMintTxos)
    ⟨st, hs, hsound, hcommitted⟩ ?_
  rintro es l e l' - ⟨st₁, hs₁, hsound₁, hcommitted₁⟩ ⟨hstep, hnot⟩
  obtain ⟨st₂, hs₂, hmoved⟩ := hstep.holds hg hs₁
  obtain ⟨hw, hcommitted₂⟩ := Step.committed hg hnot hstep hs₁ hs₂ hsound₁.wellFormed hcommitted₁
  refine ⟨st₂, hs₂, ?_, hcommitted₂⟩
  rcases hmoved with rfl | ⟨call, rfl, -, hmoved⟩
  · exact hsound₁
  · refine BacklogMove.sound (StateStep.move hmoved ?_ hsound₁.wellFormed) hsound₁ hw
    intro params hix
    obtain ⟨inv, ix, effects, before, after⟩ := call
    subst hix
    exact hnot trivial

section Tags

variable {inv : Invocation} {effects : List Effect}

def txoTag (l : Ledger) (buffer : Pubkey) : UInt32 :=
  (txoBufferHeader (l buffer).data).dogeBlockHeight

variable {txoBump mintBump : UInt8}

theorem blockUpdated_tagged {fixed : BlockUpdateFixedData} {extra : List FinalizedBlockMintTxoInfo}
    {isReorg : Bool} (hg : Guarded env.platform) (hp : inv.programId = DOGE_BRIDGE_PROGRAM_ID)
    (hon : onAccount inv (BridgeEnv.pda env)) (hs : Holds env l st) (hs' : Holds env l' st')
    (h : BlockUpdated env inv l fixed extra mintBump txoBump isReorg l' effects)
    (hready : st.coreState.pendingMintTxos.isEmpty = true)
    (hbusy : st'.coreState.pendingMintTxos.isEmpty = false) :
    ∃ txos, inv.accounts[2]? = some txos ∧
      txoTag l txos.key = st'.coreState.pendingMintTxos.startBlockHeight +
        st'.coreState.pendingMintTxos.pendingFinalizedInfoCurrentIndex.toUInt32 := by
  obtain @⟨bridge, mintBuffer, txoBuffer, _, _, _, _, _, st₀, core, l₁, l₂, _, locked, unlocked,
    ha, -, -, -, howner, hlock, hread, htxos, ⟨hd, -⟩, hrun, hwrite, hunlock⟩ := h
  obtain ⟨a, rest, hacc, hkey⟩ := hon
  have hbridge : bridge.key = BridgeEnv.pda env := by
    rw [hacc] at ha
    cases ha
    exact hkey
  rw [hbridge] at hd hread hrun hwrite
  have hlocks := locks_of_calledIf hlock
  have hs₁ : Holds env l₁ st := (hlocks.elsewhere hd.symm).trans hs
  have hrewrites := rewrites_of_writeState hp hread hwrite (calledIf_untouched hg hunlock)
  rcases Rewrites.holds hrewrites hs₁ with ⟨-, rfl, hafter⟩ | ⟨hne, -⟩
  · obtain rfl := Holds.unique hs' hafter
    have hapart : txoBuffer.key ≠ mintBuffer.key := by
      intro heq
      have hprograms : PENDING_MINT_BUFFER_BUILDER_PROGRAM_ID ≠ TXO_BUFFER_BUILDER_PROGRAM_ID := by
        decide
      rw [heq] at htxos
      exact hprograms (hlocks.lockedFor.owner.symm.trans htxos)
    refine ⟨txoBuffer, by rw [ha]; rfl, ?_⟩
    rw [txoTag, ← hlocks.elsewhere hapart]
    obtain ⟨-, hbacklog⟩ := runTransition_backlog hrun
    cases hbacklog with
    | kept same =>
      rw [show st₀.coreState.pendingMintTxos = _ from same.symm] at hready
      exact absurd (hready.symm.trans hbusy) (by decide)
    | opens opens =>
      obtain ⟨_, _, -, -, -, htag⟩ := opens.head
      have hfirst : core.pendingMintTxos.pendingFinalizedInfoCurrentIndex.toUInt32 = 0 := by
        rw [opens.eq]
        rfl
      dsimp only
      rw [htag.height_eq, Opens.height opens, hfirst, UInt32.add_zero]
  · exact absurd rfl hne

/-- Whatever fills the tracker was given a TXO buffer for the height of the block it starts: the
first block of an update, or the first block with mints that is not done. -/
structure Tagged (call : BridgeCall) (st st' : BridgeState) : Prop where
  update : updatesBlocks call.ix → st'.coreState.pendingMintTxos.isEmpty = false →
    ∃ txos, call.inv.accounts[2]? = some txos ∧
      txoTag call.before txos.key = st'.coreState.pendingMintTxos.startBlockHeight +
        st'.coreState.pendingMintTxos.pendingFinalizedInfoCurrentIndex.toUInt32
  advance : ∀ g mintBump txoBump shouldUnlock,
    call.ix = .processMintGroupAutoAdvance g mintBump txoBump shouldUnlock →
    st.coreState.tracker.isEmpty = true → st.coreState.pendingMintTxos.isEmpty = false →
    ∃ txos j entry, call.inv.accounts[2]? = some txos ∧
      Minting st.coreState.pendingMintTxos j entry ∧
      txoTag call.before txos.key =
        st.coreState.pendingMintTxos.startBlockHeight + UInt32.ofNat j

theorem CallStep.tagged {call : BridgeCall} (hg : Guarded env.platform)
    (h : CallStep env st call st') (hw : WellFormed st.coreState.pendingMintTxos) :
    Tagged call st st' := by
  constructor
  · intro hix hbusy
    obtain ⟨inv, ix, effects, l, l'⟩ := call
    have haccepted := h.accepted
    cases h.step with
    | blockUpdate run =>
      cases haccepted with
      | blockUpdate update =>
        exact blockUpdated_tagged hg h.program h.on h.before h.after update run.header.ready hbusy
    | processReorgBlocks run =>
      cases haccepted with
      | processReorgBlocks update =>
        exact blockUpdated_tagged hg h.program h.on h.before h.after update run.header.ready hbusy
    | _ => exact hix.elim
  · intro g mintBump txoBump shouldUnlock hix hidle hbusy
    have haccepted := h.accepted
    rw [hix] at haccepted
    cases haccepted with
    | processMintGroupAutoAdvance accounts _ read advance setup =>
      obtain ⟨a, rest, hacc, hkey⟩ := h.on
      have hpda := hacc.symm.trans accounts
      cases hpda
      obtain rfl := Holds.read_eq h.before hkey read
      rw [hidle, hbusy] at advance
      rw [advance] at setup
      obtain ⟨-, -, -, hsetup⟩ := advanceIf_true.mp setup
      obtain ⟨j, entry, count, hnext, -⟩ := (runSetupNextPendingBuffer_ok hw.few).mp hsetup
      refine ⟨_, j.toNat, entry, congrArg (·[2]?) accounts, NextBlock.minting hnext, ?_⟩
      rw [txoTag, hnext.txos.height_eq]
      simp

end Tags

section Main

structure BacklogHolds (env : BridgeEnv) (es : List Event) (st : BridgeState) : Prop where
  cursor : st.coreState.pendingMintTxos.pendingFinalizedInfoCurrentIndex ≤
    st.coreState.pendingMintTxos.pendingFinalizedInfoTotalCount
  few : st.coreState.pendingMintTxos.pendingFinalizedInfoTotalCount ≤ 8
  heights : st.coreState.pendingMintTxos.startBlockHeight.toNat +
      st.coreState.pendingMintTxos.pendingFinalizedInfoTotalCount.toNat - 1 =
    st.coreState.bridgeHeader.finalizedState.blockHeight.toNat
  entries : ∀ j entry, j < st.coreState.pendingMintTxos.pendingFinalizedInfoTotalCount.toNat →
    st.coreState.pendingMintTxos.pendingFinalizedInfo[j]? = some entry →
    ∃ update ∈ es, Commits env
      (st.coreState.pendingMintTxos.startBlockHeight + UInt32.ofNat j) entry update
  groups : st.coreState.tracker.pendingMintsGroupsRemaining ≠ 0 → ∃ entry count,
    st.coreState.pendingMintTxos.pendingFinalizedInfo[
      st.coreState.pendingMintTxos.pendingFinalizedInfoCurrentIndex.toNat]? = some entry ∧
    HasMints env.crypto entry count ∧ st.coreState.tracker.totalPendingMints = count.toUInt32 ∧
    st.coreState.tracker.pendingMintsGroupsRemaining.toNat + setBits st.coreState.tracker =
      groupCount count.toNat

theorem Sound.holds (h : Sound env.crypto st.coreState)
    (hcommitted : Committed env es st.coreState.pendingMintTxos)
    (hbusy : st.coreState.pendingMintTxos.isEmpty = false) : BacklogHolds env es st := by
  have hends := h.ends hbusy
  refine ⟨UInt16.le_iff_toNat_le.mpr h.wellFormed.within,
    UInt16.le_iff_toNat_le.mpr h.wellFormed.few, by omega, hcommitted, ?_⟩
  intro hrem
  obtain ⟨entry, count, hcurrent⟩ := h.counted hrem
  exact ⟨entry, count, hcurrent.atCursor, hcurrent.mints, hcurrent.tracking.total, hcurrent.groups⟩

/-- In every run after the one INITIALIZE. -/
theorem backlog_invariant {init : BridgeCall} {params : InitializeBridgeInstructionData}
    {l₀ l₁ l₂ : Ledger} (hg : Guarded env.platform) (begun : Step env l₀ (.bridge init) l₁)
    (isInit : init.ix = .initializeBridge params) (first : (l₀ (BridgeEnv.pda env)).data = [])
    (r : Run (Step env) l₁ es l₂) (once : ∀ e ∈ es, ¬ isInitialize e) :
    ∃ st, Holds env l₂ st ∧
      (st.coreState.pendingMintTxos.isEmpty = false → BacklogHolds env es st) ∧
      ∀ call l₃ st', Step env l₂ (.bridge call) l₃ → call.on (BridgeEnv.pda env) →
        Holds env l₃ st' → Tagged call st st' := by
  have hstart := begun.initialized hg isInit first
  obtain ⟨st, hs, hsound, hcommitted⟩ := run_sound hg r once hstart (initialized_sound params)
    fun i _ hi => absurd hi (Nat.not_lt_zero i)
  refine ⟨st, hs, hsound.holds hcommitted, ?_⟩
  intro call l₃ st' hstep hon hs'
  obtain ⟨st₁, hs₁, hcall⟩ := Step.callStep hg hstep hs
  rw [onState_of_on hon] at hcall
  obtain rfl := Holds.unique hs' hs₁
  exact CallStep.tagged hg hcall hsound.wellFormed

open LocalCluster RecordedBuffer

/-- The backlog after the first block of the cluster. -/
theorem first_block_backlog :
    ∃ l₁ es₁ es₂ l₂ l₃ st, Step cluster l₁ (.bridge (genesisCall es₁ l₁ l₂)) l₂ ∧
      Step cluster l₂ (.bridge (updateCall es₂ l₂ l₃)) l₃ ∧
      Holds cluster l₃ st ∧ BacklogHolds cluster
        [.bridge (updateCall es₂ l₂ l₃)] st := by
  obtain ⟨l₁, -, hmints, htxos, -, -, hunused⟩ := uploads_ran
  rw [← cluster_pda] at hunused
  obtain ⟨es₁, _, h₁, rfl⟩ := genesis_step hunused
  obtain ⟨es₂, l₃, core, h₂, hs, hbacklog, -⟩ := firstBlock_updated hmints htxos
  have hupdate := step_of_accepted rfl (.blockUpdate h₂)
  obtain ⟨st, hs', hholds, -⟩ := backlog_invariant cluster_guarded h₁ rfl
    (congrArg Account.data hunused) (.single hupdate) (by rw [List.forall_mem_singleton]; exact id)
  obtain rfl := Holds.unique hs' hs
  refine ⟨l₁, es₁, es₂, _, l₃, _, h₁, hupdate, hs', hholds ?_⟩
  dsimp only
  rw [hbacklog]
  rfl

end Main

end BacklogInvariant
