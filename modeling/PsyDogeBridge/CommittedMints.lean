import PsyDogeBridge.MintBacklog
import PsyDogeBridge.RecordedBuffer
import PsyDogeBridge.UploadedGroups

/-! Every mint of the bridge is a record that a header committed to, although the bridge hashes
only the group hashes of a buffer and anybody uploads to buffers in any order. -/
namespace CommittedMints

open PodLayout CheckedSteps SolanaRuntime BridgeData MintGroups PendingMintsTracker
  FinalizedBlockMintTxoManager ProgramState BlockTransition TransitionFacts BridgeCalls
  BridgeProcessor AcceptedInstructions BridgeSystem PendingMintBuffer BufferSteps StateHistory
  SignedCalls BufferLocks BacklogSteps UploadedGroups MintBacklog LocalCluster RecordedBuffer

variable {env : BridgeEnv} {inv : Invocation} {l l' : Ledger} {k : Pubkey} {c : Crypto}
  {e : Event} {st : BridgeState}

section Buffers

def GoodBuffers (c : Crypto) (l : Ledger) : Prop :=
  ∀ k, ofBuffer (l k).owner → HEADER_SIZE ≤ (l k).data.length → Good c (l k).data

theorem goodBuffers_of_zeros (h : ∀ k, ofBuffer (l k).owner → ∀ b ∈ (l k).data, b = 0) :
    GoodBuffers c l := by
  intro k hk hlong
  exact good_of_zeros hlong (h k hk)

theorem GoodBuffers.untouched (h : GoodBuffers c l) (hu : Untouched ofBuffer l l') :
    GoodBuffers c l' := by
  intro k hk hlong
  by_cases hb : ofBuffer (l k).owner
  · rw [hu.kept k hb] at hlong ⊢
    exact h k hb hlong
  · exact good_of_zeros hlong (hu.fresh k hk hb)

theorem GoodBuffers.setData {d : Bytes} (h : GoodBuffers c l) (hd : Good c d) :
    GoodBuffers c (l.setData k d) := by
  intro k' hk' hlong
  by_cases hne : k' = k
  · subst hne
    rw [setData_self]
    exact hd
  · rw [setData_of_ne hne] at hk' hlong ⊢
    exact h k' hk' hlong

variable {locker : Pubkey}

theorem Locks.good (h : Locks locker l l' k) (hgood : GoodBuffers c l) :
    GoodBuffers c l' := by
  rw [h.eq]
  exact hgood.setData ((hgood k h.owner h.long).locked h.long (congrArg UInt16.toNat h.complete))

theorem Unlocks.good (h : Unlocks locker l l' k) (hgood : GoodBuffers c l) :
    GoodBuffers c l' := by
  rw [h.eq]
  refine hgood.setData ⟨fun hne => absurd ?_ hne, fun hl => absurd ?_ hl⟩
  · rw [groupsOf, mintBufferHeader_withHeader h.before.long]
    rfl
  · rw [mintBufferHeader_withHeader h.before.long]

theorem Acts.good {signer : Pubkey} (h : Acts signer l l') (hgood : GoodBuffers c l) :
    GoodBuffers c l' := by
  induction h with
  | quiet h => exact hgood.untouched h
  | lock h => exact Locks.good h hgood
  | unlock h => exact Unlocks.good h hgood
  | trans _ _ ih ih' => exact ih' (ih hgood)

theorem Effect.good {upload : Bytes} (hp : inv.programId = PENDING_MINT_BUFFER_BUILDER_PROGRAM_ID)
    (hnonzero : c.sha256 upload ≠ zeroBytes) (h : BufferSteps.Effect c inv upload l l' k)
    (hgood : GoodBuffers c l) : GoodBuffers c l' := by
  obtain ⟨d, d', hw, hstep⟩ := h
  intro k' hk' hlong
  by_cases hne : k' = k
  · subst hne
    rw [hw.data] at hlong ⊢
    refine BufferStep.good hnonzero hstep ?_
    obtain ⟨op, hperforms, -⟩ := hstep
    have hd := hperforms.long
    rcases hw.before with hb | ⟨-, hb⟩
    · have hgood' := hgood k'
      rw [hb] at hgood'
      exact hgood' hp hd
    · rw [hb]
      exact good_of_zeros (by rw [List.length_replicate]) fun b hb => List.eq_of_mem_replicate hb
  · rw [hw.eq, Function.update_of_ne hne] at hk' hlong ⊢
    exact hgood k' hk' hlong

def hashesUpload (env : BridgeEnv) : Event → Prop
  | .buffer _ data => env.crypto.sha256 (data.drop 3) ≠ zeroBytes
  | _ => True

theorem Step.good (hg : Guarded env.platform) (htoken : Harmless env TOKEN_PROGRAM_ID)
    (hquiet : quietShim env e) (hhash : hashesUpload env e) (h : Step env l e l')
    (hgood : GoodBuffers env.crypto l) : GoodBuffers env.crypto l' := by
  cases h with
  | bridge program decoded ran =>
    obtain ⟨-, -, -, ha⟩ := Step.accepted (.bridge program decoded ran)
    cases Accepted.effected hg program ha with
    | found accounts => exact Acts.good (Accepted.acts htoken program hquiet accounts ha) hgood
    | created isInit =>
      subst isInit
      obtain ⟨a, rest, accounts, -⟩ := Accepted.initialize_first ha
      exact Acts.good (Accepted.acts htoken program hquiet accounts ha) hgood
  | buffer program _ ran =>
    obtain ⟨storage, rest, -, heffect⟩ := BufferSteps.processInstruction_effect ran
    exact Effect.good program hhash heffect hgood
  | other rest => exact hgood.untouched (rest.weaken fun _ => .inr)

end Buffers

section Commitments

variable {hash : QHash256} {count : UInt16} {d : Bytes} {bridge : Vector UInt8 32}

theorem MintBufferMatches.locked {flag : UInt8} (h : MintBufferMatches c bridge hash d count) :
    MintBufferMatches c bridge hash
      (withHeader d { mintBufferHeader d with isLocked := flag }) count := by
  have hd : HEADER_SIZE ≤ d.length := by
    have hlong := h.long
    change 72 ≤ d.length
    omega
  have hlen := withHeader_length (h := { mintBufferHeader d with isLocked := flag }) hd
  have hheader := mintBufferHeader_withHeader (h := { mintBufferHeader d with isLocked := flag }) hd
  refine ⟨?_, ?_, ?_, ?_, h.bound, ?_⟩
  · rw [hlen]
    exact h.long
  · rw [hheader]
    exact h.locker
  · rw [hheader]
    exact h.count_eq
  · rw [hheader]
    exact h.groups
  · rw [hashed_part (by rw [hlen]; exact hd), hheader, slice_withHeader hd (Nat.le_refl _),
      h.hash, hashed_part hd]

/-- A complete buffer that a hash commits to: the hash is the one of a count and of group hashes,
and the records of a group are the ones that its group hash belongs to. -/
theorem committed_group {g : ℕ} (hgood : Good c d) (hfull : initializedOf d = countOf d)
    (hm : MintBufferMatches c bridge hash d count) (hg : g < groupCount count.toNat) :
    ∃ hashes x, hashes.length = 32 * groupCount count.toNat ∧
      c.sha256 (Pod.u16.encode count ++ hashes) = hash ∧
      slice hashes (32 * g) 32 = (c.sha256 x).toList ∧
      x.length = 40 * groupSize count.toNat g ∧
      ∀ p < groupSize count.toNat g,
        recordAt d (recordArea count.toNat + 960 * g + 40 * p) = recordAt x (40 * p) := by
  have hcount : countOf d = count.toNat := congrArg UInt16.toNat hm.count_eq
  have hgroups : groupsOf d = groupCount count.toNat := hm.groups
  have hlong := hm.long
  obtain ⟨up, hup⟩ := hgood.filled (by omega)
  obtain ⟨x, hins, hlen⟩ := hup.full hfull (hgroups ▸ hg)
  rw [hcount] at hlen
  refine ⟨slice d 72 (groupCount count.toNat * 32), x, ?_, ?_, ?_, hlen, ?_⟩
  · rw [slice_length (by omega)]
    omega
  · rw [hm.hash, hashed_part (by omega), hm.count_eq]
  · rw [slice_slice (by omega)]
    exact hins.hash
  · intro p hp
    have hinside : 40 * p + 40 ≤ x.length := by omega
    have hrecords := hins.records
    rw [hgroups] at hrecords
    rw [recordAt, recordAt, ← hrecords, slice_slice hinside, recordArea]

end Commitments

section Blocks

variable {ix : BridgeInstruction} {m m' : FinalizedBlockMintTxoManager}

def blocksOf : BridgeInstruction → List (UInt32 × FinalizedBlockMintTxoInfo)
  | .blockUpdate fixed _ _ => [(fixed.header.finalizedState.blockHeight, headerInfo fixed.header)]
  | .processReorgBlocks fixed extra _ _ =>
    let items := extra ++ [headerInfo fixed.header]
    items.mapIdx fun i entry => (backlogHeight fixed.header items.length i, entry)
  | _ => []

def Commits (env : BridgeEnv) (height : UInt32) (entry : FinalizedBlockMintTxoInfo) : Event → Prop
  | .bridge call => call.on (BridgeEnv.pda env) ∧ (height, entry) ∈ blocksOf call.ix
  | _ => False

def Committed (env : BridgeEnv) (es : List Event) (m : FinalizedBlockMintTxoManager) : Prop :=
  ∀ i entry, i < m.pendingFinalizedInfoTotalCount.toNat →
    m.pendingFinalizedInfo[i]? = some entry →
    ∃ update ∈ es, Commits env (m.startBlockHeight + UInt32.ofNat i) entry update

theorem Opens.height {height : UInt32} {items : List FinalizedBlockMintTxoInfo}
    {account : Vector UInt8 32} {bridge : Vector UInt8 32} {txoMem mintMem : Bytes} {count : UInt16}
    (h : Opens c m height items bridge account txoMem mintMem count m') :
    m'.startBlockHeight = height := by
  rw [h.eq]
  rfl

theorem backlogHeight_add (h : PsyBridgeHeader) (n first i : ℕ) :
    backlogHeight h n first + UInt32.ofNat i = backlogHeight h n (first + i) := by
  unfold backlogHeight
  rw [UInt32.ofNat_add]
  grind

variable {st' : BridgeState} {es : List Event}

/-- Only an update changes the blocks of the backlog, and then to its own. -/
theorem StateStep.blocks (h : StateStep env ix st st')
    (hw : WellFormed st.coreState.pendingMintTxos)
    (hinit : ∀ params, ix ≠ .initializeBridge params) :
    SameBlocks st.coreState.pendingMintTxos st'.coreState.pendingMintTxos ∨
      ∀ i entry, i < st'.coreState.pendingMintTxos.pendingFinalizedInfoTotalCount.toNat →
        st'.coreState.pendingMintTxos.pendingFinalizedInfo[i]? = some entry →
        (st'.coreState.pendingMintTxos.startBlockHeight + UInt32.ofNat i, entry) ∈ blocksOf ix := by
  by_cases hix : movesBacklog ix
  · cases h with
    | initializeBridge => exact absurd rfl (hinit _)
    | blockUpdate run =>
      obtain ⟨m, recent, hbacklog, -, rfl⟩ := run.update
      cases hbacklog with
      | kept _ _ eq =>
        subst eq
        exact .inl ⟨rfl, rfl, rfl⟩
      | opens _ _ opens =>
        refine .inr fun i entry hi hentry => ?_
        dsimp only at hi hentry ⊢
        rw [Opens.total opens, List.length_singleton, Nat.lt_one_iff] at hi
        subst hi
        rw [Opens.entry opens Nat.one_pos] at hentry
        cases hentry
        rw [Opens.height opens]
        exact List.mem_singleton.mpr (Prod.ext (UInt32.add_zero _) rfl)
    | processReorgBlocks run =>
      obtain ⟨m, hbacklog, rfl⟩ := run.update
      cases hbacklog with
      | kept _ eq =>
        subst eq
        exact .inl ⟨rfl, rfl, rfl⟩
      | @opens first count inside _ opens =>
        refine .inr fun i entry hi hentry => ?_
        dsimp only at hi hentry ⊢
        rw [Opens.total opens] at hi
        rw [Opens.entry opens hi] at hentry
        rw [List.length_drop] at hi
        rw [Opens.height opens, backlogHeight_add]
        refine List.mem_mapIdx.mpr ⟨first + i, by omega, ?_⟩
        cases hentry
        rw [List.getElem_drop]
    | processMintGroup run => exact .inl (ClaimsGroup.sameBlocks run)
    | processMintGroupAutoAdvance setup run =>
      have hclaim := ClaimsGroup.sameBlocks run
      rcases setup with rfl | ⟨bridge, txoMem, mintMem, hsetup⟩
      · exact .inl hclaim
      · obtain ⟨j, entry, count, -, rfl⟩ := (runSetupNextPendingBuffer_ok hw.few).mp hsetup
        exact .inl ⟨hclaim.info, hclaim.total, hclaim.height⟩
    | _ => exact hix.elim
  · rw [StateStep.backlog_kept h hix]
    exact .inl ⟨rfl, rfl, rfl⟩

theorem Committed.mono {es' : List Event} (h : Committed env es m) :
    Committed env (es ++ es') m := by
  intro i entry hi hentry
  obtain ⟨update, hmem, hcommits⟩ := h i entry hi hentry
  exact ⟨update, List.mem_append_left _ hmem, hcommits⟩

theorem Committed.step {call : BridgeCall} (h : Committed env es st.coreState.pendingMintTxos)
    (hon : call.on (BridgeEnv.pda env)) (hw : WellFormed st.coreState.pendingMintTxos)
    (hinit : ∀ params, call.ix ≠ .initializeBridge params) (hstep : StateStep env call.ix st st') :
    Committed env (es ++ [.bridge call]) st'.coreState.pendingMintTxos := by
  intro i entry hi hentry
  rcases StateStep.blocks hstep hw hinit with hsame | hblocks
  · rw [hsame.total] at hi
    rw [hsame.info] at hentry
    rw [hsame.height]
    exact h.mono i entry hi hentry
  · exact ⟨_, List.mem_append_right _ (List.mem_singleton_self _), hon, hblocks i entry hi hentry⟩

theorem Step.committed (hg : Guarded env.platform) (hinit : ¬ isInitialize e) (h : Step env l e l')
    (hs : Holds env l st) (hs' : Holds env l' st') (hw : WellFormed st.coreState.pendingMintTxos)
    (hcommitted : Committed env es st.coreState.pendingMintTxos) :
    WellFormed st'.coreState.pendingMintTxos ∧
      Committed env (es ++ [e]) st'.coreState.pendingMintTxos := by
  obtain ⟨st₁, hs₁, hstep⟩ := h.holds hg hs
  obtain rfl := Holds.unique hs' hs₁
  rcases hstep with rfl | ⟨call, rfl, hon, hstep⟩
  · exact ⟨hw, hcommitted.mono⟩
  · refine ⟨StateStep.wellFormed hstep hw, hcommitted.step hon hw ?_ hstep⟩
    intro params hix
    obtain ⟨inv, ix, effects, before, after⟩ := call
    subst hix
    exact hinit trivial

end Blocks

section Backed

variable {fixed : BlockUpdateFixedData} {extra : List FinalizedBlockMintTxoInfo} {isReorg : Bool}
  {buffer : Pubkey} {core : PsyBridgeProgramState} {m : FinalizedBlockMintTxoManager} {g : UInt16}
  {es : List Effect}

/-- The buffer of the current block is locked for the bridge, and it is the one that the block
commits to. -/
def Backed (env : BridgeEnv) (l : Ledger) (m : FinalizedBlockMintTxoManager) : Prop :=
  m.currentPendingMintsTracker.pendingMintsGroupsRemaining ≠ 0 →
    LockedFor (BridgeEnv.pda env)
      (l m.currentPendingMintsTracker.lastFinalizedAutoClaimMintsStorageAccount) ∧
    ∃ entry count,
      m.pendingFinalizedInfo[m.pendingFinalizedInfoCurrentIndex.toNat]? = some entry ∧
      Tracking m.currentPendingMintsTracker count ∧
      MintBufferMatches env.crypto (BridgeEnv.pda env) entry.pendingMintsFinalizedHash
        (l m.currentPendingMintsTracker.lastFinalizedAutoClaimMintsStorageAccount).data count

theorem Backed.frozen (h : Backed env l m) (hf : Frozen (BridgeEnv.pda env) l l') :
    Backed env l' m := by
  intro hrem
  obtain ⟨hlocked, hmatches⟩ := h hrem
  rw [hf _ hlocked]
  exact ⟨hlocked, hmatches⟩

def RaisesIfMints (st : BridgeState) (header : PsyBridgeHeader)
    (extra : List FinalizedBlockMintTxoInfo) : Prop :=
  (∃ e ∈ extra ++ [headerInfo header], e.isEmpty = false) →
    autoClaimIndex st.coreState ≠ header.finalizedState.autoClaimedDepositsNextIndex

theorem UpdatedOn.backed (hs : Holds env l st)
    (hraises : isReorg = true → RaisesIfMints st fixed.header extra)
    (hb : Backed env l st.coreState.pendingMintTxos)
    (h : UpdatedOn env l st fixed extra isReorg buffer core l') :
    Backed env l' core.pendingMintTxos := by
  have hfrozen := h.frozen hs
  obtain @⟨l₁, _, txos, apart, lock, run, unlock⟩ := h
  obtain ⟨hheader, hbacklog⟩ := runTransition_backlog run
  cases hbacklog with
  | kept same _ =>
    rw [same]
    exact hb.frozen hfrozen
  | @opens height items count opens mints =>
    have hraised : autoClaimIndex st.coreState ≠ autoClaimIndex core := by
      rw [autoClaimIndex, autoClaimIndex, hheader]
      cases isReorg with
      | false =>
        intro hidx
        exact mints (newAutoClaims_eq_zero.mpr hidx)
      | true => exact hraises rfl mints
    rw [if_neg hraised] at unlock
    have hbuffer : l' buffer = l₁ buffer := by
      rw [unlock, install_of_ne apart]
    obtain ⟨e, rest, hitems, -, hmatches, -⟩ := opens.head
    have hpos : 0 < items.length := by
      rw [hitems]
      exact Nat.succ_pos _
    have hindex : core.pendingMintTxos.pendingFinalizedInfoCurrentIndex.toNat = 0 := by
      rw [opens.eq]
      rfl
    have hfirst : items[0] = e := by simp [hitems]
    intro _
    rw [Opens.tracker opens, hindex, Opens.entry opens hpos, hfirst]
    change LockedFor (BridgeEnv.pda env) (l' buffer) ∧ ∃ entry count', some e = some entry ∧
      Tracking (freshTracker buffer count) count' ∧ MintBufferMatches env.crypto (BridgeEnv.pda env)
        entry.pendingMintsFinalizedHash (l' buffer).data count'
    rw [hbuffer]
    exact ⟨lock.lockedFor, e, count, rfl, freshTracker_tracking buffer count, hmatches⟩

/-- The block whose group is claimed, and its buffer. -/
structure Source (env : BridgeEnv) (l : Ledger) (s s₁ : PsyBridgeProgramState) (buffer : Pubkey)
    (entry : FinalizedBlockMintTxoInfo) (count : UInt16) : Prop where
  apart : buffer ≠ BridgeEnv.pda env
  wellFormed : WellFormed s₁.pendingMintTxos
  same : SameBlocks s.pendingMintTxos s₁.pendingMintTxos
  minting : Minting s.pendingMintTxos
    s₁.pendingMintTxos.pendingFinalizedInfoCurrentIndex.toNat entry
  tracking : Tracking s₁.tracker count
  mints : MintBufferMatches env.crypto (BridgeEnv.pda env) entry.pendingMintsFinalizedHash
    (l buffer).data count

theorem GroupStart.source {jit : Bool} {s₁ s' : PsyBridgeProgramState} {claim : GroupClaim}
    (hs : Holds env l st) (hw : WellFormed st.coreState.pendingMintTxos)
    (hb : Backed env l st.coreState.pendingMintTxos)
    (start : GroupStart env l st.coreState buffer jit s₁)
    (claims : ClaimsGroup s₁ g buffer s' claim) :
    ∃ entry count, Source env l st.coreState s₁ buffer entry count ∧
      (jit = false → LockedFor (BridgeEnv.pda env) (l buffer)) := by
  cases start with
  | current =>
    obtain ⟨hlocked, entry, count, hentry, htracking, hmatches⟩ := hb claims.remaining
    obtain ⟨entry', hminting⟩ := hw.minting claims.remaining
    have heq : entry' = entry := Option.some.inj (hminting.entry.symm.trans hentry)
    subst heq
    rw [← show buffer = _ from claims.buffer] at hlocked hmatches
    exact ⟨_, count, ⟨hlocked.ne_pda hs, hw, ⟨rfl, rfl, rfl⟩, hminting, htracking, hmatches⟩,
      fun _ => hlocked⟩
  | advance apart setup =>
    obtain ⟨j, entry, count, hnext, rfl⟩ := (runSetupNextPendingBuffer_ok hw.few).mp setup
    exact ⟨entry, count, ⟨apart, NextBlock.wellFormed hw hnext, ⟨rfl, rfl, rfl⟩,
      NextBlock.minting hnext, freshTracker_tracking buffer count, hnext.mints⟩, nofun⟩

theorem MintsOn.backed (htoken : Harmless env TOKEN_PROGRAM_ID) (hs : Holds env l st)
    (hw : WellFormed st.coreState.pendingMintTxos) (hb : Backed env l st.coreState.pendingMintTxos)
    (h : MintsOn env inv l st g core l' es) : Backed env l' core.pendingMintTxos := by
  obtain @⟨bridgeState, buffer, dogeMint, recipients, jit, core₁, claim, hpda, start, claims,
    group⟩ := h
  obtain ⟨entry, count, source, hlocked⟩ := GroupStart.source hs hw hb start claims
  have htracker : core.pendingMintTxos.currentPendingMintsTracker = core₁.tracker.claim g.toNat :=
    ClaimsGroup.tracker claims
  have haccount :
      core.pendingMintTxos.currentPendingMintsTracker.lastFinalizedAutoClaimMintsStorageAccount =
      buffer.key := by
    rw [htracker, claim_account]
    exact claims.buffer.symm
  intro hrem
  have hstays : claim.canUnlock = false := by
    rw [claims.claim]
    simpa [PendingMintsTracker.isEmpty, htracker] using hrem
  rw [hstays] at group
  have hbuffer : install env l { st with coreState := core } buffer.key = l buffer.key :=
    install_of_ne source.apart
  have hlocked' := groupMinted_lockedFor htoken hpda (fun hf => hbuffer ▸ hlocked hf) group
  obtain ⟨l₁, hlock, hkept⟩ := groupMinted_kept htoken
    (fun hf => hbuffer ▸ (hlocked hf).owner) group
  have hmatches : MintBufferMatches env.crypto (BridgeEnv.pda env) entry.pendingMintsFinalizedHash
      (l' buffer.key).data count := by
    rw [hkept]
    cases jit with
    | true =>
      rw [Locks.eq hlock, setData_self, hbuffer]
      exact MintBufferMatches.locked source.mints
    | false =>
      rw [show l₁ = _ from hlock, hbuffer]
      exact source.mints
  have hindex := ClaimsGroup.index claims source.wellFormed
  rw [if_neg hrem] at hindex
  have hentry := source.minting.entry
  rw [← source.same.info, ← (ClaimsGroup.sameBlocks claims).info, ← hindex] at hentry
  rw [haccount]
  exact ⟨hlocked', entry, count, hentry, ClaimsGroup.tracking claims source.tracking, hmatches⟩

/-- What is minted for group `g`: the records of a string whose hash is the group hash in what
the block commits to. -/
structure MintsCommitted (env : BridgeEnv) (inv : Invocation) (es : List Effect)
    (hash : QHash256) (g : ℕ) (count : UInt16) (hashes x : Bytes) : Prop where
  group : g < groupCount count.toNat
  length : hashes.length = 32 * groupCount count.toNat
  preimage : env.crypto.sha256 (Pod.u16.encode count ++ hashes) = hash
  groupHash : slice hashes (32 * g) 32 = (env.crypto.sha256 x).toList
  size : x.length = 40 * groupSize count.toNat g
  records : (minted es).map Prod.snd =
    (List.range (groupSize count.toNat g)).map fun p => recordAt x (40 * p)
  calls : ∀ e ∈ es, MintsOwn env inv e

theorem MintsOn.committed (hs : Holds env l st) (hw : WellFormed st.coreState.pendingMintTxos)
    (hb : Backed env l st.coreState.pendingMintTxos) (hgood : GoodBuffers env.crypto l)
    (h : MintsOn env inv l st g core l' es) :
    ∃ j entry count hashes x, Minting st.coreState.pendingMintTxos j entry ∧
      MintsCommitted env inv es entry.pendingMintsFinalizedHash g.toNat count hashes x := by
  obtain @⟨bridgeState, buffer, dogeMint, recipients, jit, core₁, claim, hpda, start, claims,
    group⟩ := h
  obtain ⟨entry, count, source, hlocked⟩ := GroupStart.source hs hw hb start claims
  have hbuffer : install env l { st with coreState := core } buffer.key = l buffer.key :=
    install_of_ne source.apart
  have hlong : HEADER_SIZE ≤ (l buffer.key).data.length := by
    have hlong := source.mints.long
    change 72 ≤ _
    omega
  -- A buffer that is locked for the claim or before it is complete.
  have hcomplete : ofBuffer (l buffer.key).owner ∧
      initializedOf (l buffer.key).data = countOf (l buffer.key).data := by
    cases jit with
    | false =>
      have hlocked := hlocked rfl
      exact ⟨hlocked.owner, (hgood _ hlocked.owner hlong).complete hlocked.locked⟩
    | true =>
      obtain ⟨-, hlock, -, -, -⟩ := group
      have hlocks := locks_of_calledIf hlock
      have howner := hlocks.owner
      have hfull := hlocks.complete
      rw [hbuffer] at howner hfull
      exact ⟨howner, congrArg UInt16.toNat hfull⟩
  have hin := ClaimsGroup.inGroup claims source.tracking
  obtain ⟨hashes, x, hlen, hpre, hhash, hsize, hrecords⟩ :=
    committed_group (hgood _ hcomplete.1 hlong) hcomplete.2 source.mints hin
  obtain ⟨hoffset, hcount⟩ := ClaimsGroup.reads claims source.tracking
  obtain ⟨mem, hmem, hminted, hown⟩ := groupMinted_records group
  rw [hbuffer] at hmem
  have harea : HEADER_SIZE ≤ recordArea count.toNat + 960 * g.toNat := by
    change 72 ≤ 72 + 32 * groupCount count.toNat + 960 * g.toNat
    omega
  refine ⟨_, entry, count, hashes, x, source.minting, hin, hlen, hpre, hhash, hsize, ?_, hown⟩
  rw [hminted, hoffset, hcount, recordsFrom_congr _ _ hmem harea, recordsFrom, List.map_map,
    ← List.range_eq_range']
  refine List.map_congr_left fun p hp => ?_
  exact hrecords p (List.mem_range.mp hp)

end Backed

section Runs

variable {es : List Event}

/-- A reorganisation of the bridge moves the index if one of its blocks has mints. -/
def raisesIfMints (env : BridgeEnv) : Event → Prop
  | .bridge { inv := inv, ix := .processReorgBlocks fixed extra _ _, before := l, .. } =>
    onAccount inv (BridgeEnv.pda env) → ∀ st, Holds env l st → RaisesIfMints st fixed.header extra
  | _ => True

/-- What holds after the events `es`. -/
structure Sound (env : BridgeEnv) (es : List Event) (l : Ledger) (st : BridgeState) : Prop where
  holds : Holds env l st
  wellFormed : WellFormed st.coreState.pendingMintTxos
  backed : Backed env l st.coreState.pendingMintTxos
  committed : Committed env es st.coreState.pendingMintTxos
  good : GoodBuffers env.crypto l

theorem Step.sound (hg : Guarded env.platform) (htoken : Harmless env TOKEN_PROGRAM_ID)
    (hz : BridgeEnv.pda env ≠ zeroBytes) (hinit : ¬ isInitialize e) (hquiet : quietShim env e)
    (hhash : hashesUpload env e) (hraises : raisesIfMints env e) (h : Step env l e l')
    (hsound : Sound env es l st) : ∃ st', Sound env (es ++ [e]) l' st' := by
  have hs := hsound.holds
  have hw := hsound.wellFormed
  have hgood := Step.good hg htoken hquiet hhash h hsound.good
  obtain ⟨st', hs', hstep⟩ := Step.backlogStep hg hinit hs h
  obtain ⟨hw', hcommitted⟩ := Step.committed hg hinit h hs hs' hw hsound.committed
  refine ⟨st', hs', hw', ?_, hcommitted, hgood⟩
  cases hstep with
  | kept hstill same =>
    rw [same]
    exact hsound.backed.frozen (Step.frozen hg htoken hz hquiet hstill h)
  | blockUpdate _ _ update => exact UpdatedOn.backed hs (by nofun) hsound.backed update
  | reorg on _ update => exact UpdatedOn.backed hs (fun _ => hraises on st hs) hsound.backed update
  | mints _ _ mints => exact MintsOn.backed htoken hs hw hsound.backed mints

/-- Whatever was done to mint buffers before and after the one INITIALIZE, in a run in which
reorganisations with mints move the index: what the bridge mints for a group of a block are the
records of a string whose hash is the group hash in what an accepted update commits to for the
block. -/
theorem minted_records_committed {params : InitializeBridgeInstructionData} {es₀ : List Event}
    {l₀ l₁ l₂ l₃ l₄ : Ledger} {init mint : BridgeCall} {g : UInt16} (hg : Guarded env.platform)
    (htoken : Harmless env TOKEN_PROGRAM_ID) (hz : BridgeEnv.pda env ≠ zeroBytes)
    (zeros : ∀ k, ofBuffer (l₀ k).owner → ∀ b ∈ (l₀ k).data, b = 0)
    (before : Run (Step env) l₀ es₀ l₁) (start : Step env l₁ (.bridge init) l₂)
    (isInit : init.ix = .initializeBridge params) (first : (l₁ (BridgeEnv.pda env)).data = [])
    (r : Run (Step env) l₂ es l₃) (last : Step env l₃ (.bridge mint) l₄)
    (on : mint.on (BridgeEnv.pda env)) (mints : mintsGroup mint.ix = some g)
    (once : ∀ e ∈ es, ¬ isInitialize e) (quiet : ∀ e ∈ es₀ ++ es, quietShim env e)
    (hashes : ∀ e ∈ es₀ ++ es, hashesUpload env e) (raises : ∀ e ∈ es, raisesIfMints env e) :
    ∃ st j entry count hashes x, Holds env l₃ st ∧ Minting st.coreState.pendingMintTxos j entry ∧
      (∃ update ∈ es,
        Commits env (st.coreState.pendingMintTxos.startBlockHeight + UInt32.ofNat j) entry update) ∧
      MintsCommitted env mint.inv mint.effects entry.pendingMintsFinalizedHash g.toNat count hashes
        x := by
  have hgood₁ : GoodBuffers env.crypto l₁ := by
    refine Run.invariant (P := GoodBuffers env.crypto) ?_
      (before.restrict fun e he => List.mem_append_left es he) (goodBuffers_of_zeros zeros)
    intro l e l' hgood hstep
    exact Step.good hg htoken (quiet e hstep.2) (hashes e hstep.2) hstep.1 hgood
  have hsound₂ : Sound env [] l₂ ⟨PsyBridgeProgramState.initialized params, params.dogeMint⟩ := by
    refine ⟨start.initialized hg isInit first, default_wellFormed, fun h => absurd rfl h, ?_, ?_⟩
    · intro i entry hi
      exact absurd hi (Nat.not_lt_zero i)
    · have hquiet : quietShim env (.bridge init) := by
        intro hposts
        rw [isInit] at hposts
        exact hposts.elim
      have hhash : hashesUpload env (.bridge init) := trivial
      exact Step.good hg htoken hquiet hhash start hgood₁
  have hsound₃ : ∃ st, Sound env es l₃ st := by
    refine Run.history (P := fun _ es l => ∃ st, Sound env es l st) ⟨_, hsound₂⟩ ?_
      (r.restrict fun e he => he)
    intro es' l e l' _ hst hstep
    obtain ⟨st, hsound⟩ := hst
    have hmem : e ∈ es₀ ++ es := List.mem_append_right es₀ hstep.2
    exact Step.sound hg htoken hz (once e hstep.2) (quiet e hmem) (hashes e hmem)
      (raises e hstep.2) hstep.1 hsound
  obtain ⟨st, hsound⟩ := hsound₃
  obtain ⟨a, rest, ha, hpda⟩ := on
  obtain ⟨-, -, -, haccepted⟩ := last.accepted
  obtain ⟨core, hmints, -⟩ := Accepted.mintsOn hsound.holds ha hpda mints haccepted
  obtain ⟨j, entry, count, hashes, x, hminting, hcommitted⟩ :=
    MintsOn.committed hsound.holds hsound.wellFormed hsound.backed hsound.good hmints
  exact ⟨st, j, entry, count, hashes, x, hsound.holds, hminting,
    hsound.committed j entry hminting.inside hminting.entry, hcommitted⟩

end Runs

section Samples

def freshLedger : Ledger :=
  Function.update
    (Function.update
      (Function.update emptyLedger txoBufferKey
        ⟨TXO_BUFFER_BUILDER_PROGRAM_ID, txoBuffer 11 depositTxos⟩)
      recipientKey (tokenAccount mintKey operatorKey 0))
    mintKey (mintAccount bridgeState 0)

theorem freshLedger_owner (k : Pubkey) : ¬ ofBuffer (freshLedger k).owner := by
  have hsystem : SYSTEM_PROGRAM_ID ≠ PENDING_MINT_BUFFER_BUILDER_PROGRAM_ID := by decide
  have htxos : TXO_BUFFER_BUILDER_PROGRAM_ID ≠ PENDING_MINT_BUFFER_BUILDER_PROGRAM_ID := by
    decide
  unfold freshLedger
  simp only [Function.update_apply]
  split_ifs
  · exact buffer_ne_token.symm
  · exact buffer_ne_token.symm
  · exact htxos
  · exact hsystem

def uploadInvocation : Invocation where
  programId := PENDING_MINT_BUFFER_BUILDER_PROGRAM_ID
  accounts := [⟨mintBufferKey, false, true⟩, ⟨operatorKey, true, true⟩,
    ⟨SYSTEM_PROGRAM_ID, false, false⟩]
  unixTimestamp := 0
  fundsSuffice := true

def upload (l : Ledger) (data : Bytes) : Option Ledger :=
  (PendingMintBuffer.processInstruction platform crypto uploadInvocation l data).toOption

def uploads : List Bytes :=
  [0 :: (bridgeState.toList ++ operatorKey.toList), 1 :: Pod.u16.encode 1,
    3 :: (Pod.u16.encode 0 ++ depositRecord)]

theorem uploads_hashed : ∀ data ∈ uploads, crypto.sha256 (data.drop 3) ≠ zeroBytes := by
  decide +kernel

theorem upload_run {datas : List Bytes} (h : datas.foldlM upload l = some l') :
    Run (Step cluster) l (datas.map (.buffer uploadInvocation)) l' := by
  have hunsigned : ¬ uploadInvocation.signs (BridgeEnv.pda cluster) := by
    rw [cluster_pda]
    decide
  induction datas generalizing l with
  | nil =>
    cases h
    exact .nil _
  | cons data rest ih =>
    obtain ⟨l₁, h₁, hrest⟩ := Option.bind_eq_some_iff.mp h
    exact (Run.single (.buffer rfl hunsigned (toOption_eq_some.mp h₁))).append (ih hrest)

theorem uploads_ran :
    ∃ l, uploads.foldlM upload freshLedger = some l ∧
      l mintBufferKey = ⟨PENDING_MINT_BUFFER_BUILDER_PROGRAM_ID, openBuffer 1 depositArea⟩ ∧
      l txoBufferKey = ⟨TXO_BUFFER_BUILDER_PROGRAM_ID, txoBuffer 11 depositTxos⟩ ∧
      l mintKey = mintAccount bridgeState 0 ∧ l recipientKey = tokenAccount mintKey operatorKey 0 ∧
      l bridgeState = ⟨SYSTEM_PROGRAM_ID, []⟩ := by
  have hran : (uploads.foldlM upload freshLedger).map (fun l =>
      [l mintBufferKey, l txoBufferKey, l mintKey, l recipientKey, l bridgeState]) =
      some [⟨PENDING_MINT_BUFFER_BUILDER_PROGRAM_ID, openBuffer 1 depositArea⟩,
        ⟨TXO_BUFFER_BUILDER_PROGRAM_ID, txoBuffer 11 depositTxos⟩, mintAccount bridgeState 0,
        tokenAccount mintKey operatorKey 0, ⟨SYSTEM_PROGRAM_ID, []⟩] := by decide +kernel
  obtain ⟨l, hl, hkeys⟩ := Option.map_eq_some_iff.mp hran
  simp only [List.cons.injEq] at hkeys
  exact ⟨l, hl, hkeys.1, hkeys.2.1, hkeys.2.2.1, hkeys.2.2.2.1, hkeys.2.2.2.2.1⟩

def groupInvocation (env : BridgeEnv) : Invocation where
  programId := DOGE_BRIDGE_PROGRAM_ID
  accounts := [⟨BridgeEnv.pda env, false, true⟩, ⟨mintBufferKey, false, true⟩,
    ⟨operatorKey, true, false⟩, ⟨mintKey, false, true⟩, ⟨operatorKey, true, true⟩,
    ⟨PENDING_MINT_BUFFER_BUILDER_PROGRAM_ID, false, false⟩, ⟨TOKEN_PROGRAM_ID, false, false⟩,
    ⟨recipientKey, false, true⟩]
  unixTimestamp := 0
  fundsSuffice := true

def depositMint (env : BridgeEnv) : Cpi :=
  mintToCall env (groupInvocation env) ⟨mintKey, false, true⟩ ⟨recipientKey, false, true⟩
    ⟨BridgeEnv.pda env, false, true⟩ 990

def claimed (core : PsyBridgeProgramState) : PsyBridgeProgramState :=
  { core with pendingMintTxos := afterClaim core.pendingMintTxos 0 }

variable {core : PsyBridgeProgramState}

theorem first_group_claims
    (hbacklog : core.pendingMintTxos = firstBacklog mintBufferKey 1 depositArea depositTxos) :
    ClaimsGroup core 0 mintBufferKey (claimed core) ⟨true, 1, 104⟩ := by
  have htracker : core.tracker = ⟨mintBufferKey, zeroBytes, 1, 1⟩ := by
    rw [PsyBridgeProgramState.tracker, hbacklog]
    rfl
  refine ⟨?_, ?_, ?_, by decide, ?_, ?_, ?_, rfl, ?_⟩
  · rw [hbacklog]
    decide
  all_goals rw [htracker]
  · decide
  · decide
  · decide
  · decide
  · rw [GroupClaim.mk.injEq]
    decide

structure ListsDeposit (env : BridgeEnv) (inv : Invocation) : Prop where
  program : inv.programId = DOGE_BRIDGE_PROGRAM_ID
  state : (⟨BridgeEnv.pda env, false, true⟩ : AccountInfo) ∈ inv.accounts
  buffer : (⟨mintBufferKey, false, true⟩ : AccountInfo) ∈ inv.accounts
  mint : (⟨mintKey, false, true⟩ : AccountInfo) ∈ inv.accounts
  recipient : (⟨recipientKey, false, true⟩ : AccountInfo) ∈ inv.accounts
  bufferProgram : inv.lists PENDING_MINT_BUFFER_BUILDER_PROGRAM_ID
  tokenProgram : inv.lists TOKEN_PROGRAM_ID

variable {inv : Invocation}

theorem ListsDeposit.granted (h : ListsDeposit env inv) :
    ∀ m ∈ (depositMint env).accounts, inv.grants (depositMint env) m := by
  intro m hm
  simp only [depositMint, mintToCall, List.mem_cons, List.not_mem_nil, or_false] at hm
  rcases hm with rfl | rfl | rfl
  · exact ⟨⟨_, h.mint, rfl⟩, fun hs => absurd hs Bool.false_ne_true, fun _ => ⟨_, h.mint, rfl, rfl⟩⟩
  · exact ⟨⟨_, h.recipient, rfl⟩, fun hs => absurd hs Bool.false_ne_true,
      fun _ => ⟨_, h.recipient, rfl, rfl⟩⟩
  · exact ⟨⟨_, h.state, rfl⟩, fun _ => .inr rfl, fun hw => absurd hw Bool.false_ne_true⟩

theorem ListsDeposit.call (h : ListsDeposit env inv) :
    mintToCall env inv ⟨mintKey, false, true⟩ ⟨recipientKey, false, true⟩
      ⟨BridgeEnv.pda env, false, true⟩ 990 = depositMint env := by
  rw [depositMint, mintToCall, mintToCall, h.program, groupInvocation]

theorem deposit_minted (hlists : ListsDeposit env inv)
    (minted : Called env inv ⟨[], [mintBufferKey]⟩ (depositMint env) l l') :
    mintRecords env inv ⟨[], [mintBufferKey]⟩ ⟨mintKey, false, true⟩
      ⟨BridgeEnv.pda env, false, true⟩ [⟨recipientKey, false, true⟩]
        (mintBuffer 1 depositArea) 104 1
      0 l = .ok (l', [.mintRecord 104 ⟨recipientKey, 990⟩ (depositMint env)]) := by
  have hrecord : PendingMint.pod.decode (slice (mintBuffer 1 depositArea) 104 40) =
      ⟨recipientKey, 990⟩ := by decide
  have hlong : 104 + 0 * PM_DA_PENDING_MINT_SIZE + PM_DA_PENDING_MINT_SIZE ≤
      (mintBuffer 1 depositArea).length := by decide +kernel
  simp only [mintRecords, bind_ok, ensure_ok, exists_const, mintTo_ok, pure_ok, Prod.exists,
    Prod.mk.injEq]
  refine ⟨hlong, l', _, ⟨_, rfl, ?_, rfl, ?_⟩, l', [], rfl, rfl, ?_⟩
  · rw [Nat.zero_mul, Nat.add_zero, hrecord]
  · rw [Nat.zero_mul, Nat.add_zero, hrecord, hlists.call]
    exact minted
  · rw [Nat.zero_mul, Nat.add_zero, hrecord, hlists.call]

theorem group_minted {l₁ : Ledger} (hlists : ListsDeposit env inv)
    (hbuffer : (l mintBufferKey).data = mintBuffer 1 depositArea)
    (minted : Called env inv ⟨[], [mintBufferKey]⟩ (depositMint env) l l₁)
    (unlock : Unlocks (BridgeEnv.pda env) l₁ l' mintBufferKey) :
    ∃ es, GroupMinted env inv l ⟨BridgeEnv.pda env, false, true⟩ ⟨mintBufferKey, false, true⟩
        ⟨mintKey, false, true⟩ [⟨recipientKey, false, true⟩] ⟨true, 1, 104⟩ false true l' es ∧
      es.head? = some (.mintRecord 104 ⟨recipientKey, 990⟩ (depositMint env)) := by
  have hunlock : Called env inv .none (lockerCall env inv 5 ⟨mintBufferKey, false, true⟩
      ⟨BridgeEnv.pda env, false, true⟩) l₁ l' :=
    locker_called hlists.program hlists.state hlists.buffer hlists.bufferProgram
      (unlock_callee.mpr unlock)
  have hmint := deposit_minted hlists minted
  rw [← hbuffer] at hmint
  exact ⟨_, .intro rfl rfl hmint (by decide) ⟨hunlock, rfl⟩, rfl⟩

theorem deposit_lockedFor : LockedFor (BridgeEnv.pda cluster)
    ⟨PENDING_MINT_BUFFER_BUILDER_PROGRAM_ID, mintBuffer 1 depositArea⟩ := by
  have hheader : mintBufferHeader (mintBuffer 1 depositArea) =
      ⟨bridgeState, operatorKey, 1, 0, 1, 1, 1⟩ := mintBufferHeader_append _ _
  refine ⟨rfl, by decide +kernel, ?_, ?_⟩
  · rw [hheader, cluster_pda]
  · rw [hheader]
    decide

theorem cluster_group_minted (hlists : ListsDeposit cluster inv)
    (hbuffer : l mintBufferKey = ⟨PENDING_MINT_BUFFER_BUILDER_PROGRAM_ID, mintBuffer 1 depositArea⟩)
    (hm : l mintKey = mintAccount bridgeState 0)
    (hr : l recipientKey = tokenAccount mintKey operatorKey 0) :
    ∃ es l', GroupMinted cluster inv (install cluster l ⟨claimed core, mintKey⟩)
        ⟨BridgeEnv.pda cluster, false, true⟩ ⟨mintBufferKey, false, true⟩
        ⟨mintKey, false, true⟩ [⟨recipientKey, false, true⟩] ⟨true, 1, 104⟩ false true l' es ∧
      es.head? = some (.mintRecord 104 ⟨recipientKey, 990⟩ (depositMint cluster)) := by
  have hfar {k : Pubkey} (hk : k ≠ bridgeState) :
      install cluster l ⟨claimed core, mintKey⟩ k = l k := cluster_install_of_ne hk
  have hclaimed : install cluster l ⟨claimed core, mintKey⟩ mintBufferKey =
      ⟨PENDING_MINT_BUFFER_BUILDER_PROGRAM_ID, mintBuffer 1 depositArea⟩ :=
    (hfar (by decide)).trans hbuffer
  have hpermit : ∀ m ∈ (depositMint cluster).accounts,
      (⟨[], [mintBufferKey]⟩ : Borrows).permit m := by decide
  have hgranted := hlists.granted
  obtain ⟨l₁, hminted⟩ : ∃ l₁, Called cluster inv ⟨[], [mintBufferKey]⟩ (depositMint cluster)
      (install cluster l ⟨claimed core, mintKey⟩) l₁ := by
    rw [← hlists.call] at hpermit hgranted ⊢
    exact mint_called hlists.program rfl hpermit hlists.tokenProgram hgranted rfl cluster_pda_key
      ((hfar (by decide)).trans hm) ((hfar (by decide)).trans hr)
  have hquiet : Untouched ofBuffer (install cluster l ⟨claimed core, mintKey⟩) l₁ :=
    callee_quiet cluster_token hminted.2.2.2
  have hkept : l₁ mintBufferKey =
      ⟨PENDING_MINT_BUFFER_BUILDER_PROGRAM_ID, mintBuffer 1 depositArea⟩ := by
    rw [hquiet.kept _ (congrArg Account.owner hclaimed), hclaimed]
  have hlocked : LockedFor (BridgeEnv.pda cluster) (l₁ mintBufferKey) := by
    rw [hkept]
    exact deposit_lockedFor
  obtain ⟨es, hgroup, hes⟩ := group_minted hlists (congrArg Account.data hclaimed) hminted
    ⟨hlocked, rfl⟩
  exact ⟨es, _, hgroup, hes⟩

theorem groupInvocation_lists (env : BridgeEnv) : ListsDeposit env (groupInvocation env) := by
  refine ⟨rfl, ?_, ?_, ?_, ?_,
    ⟨⟨PENDING_MINT_BUFFER_BUILDER_PROGRAM_ID, false, false⟩, ?_, rfl⟩,
    ⟨⟨TOKEN_PROGRAM_ID, false, false⟩, ?_, rfl⟩⟩ <;> simp [groupInvocation]

theorem groupInvocation_on (env : BridgeEnv) :
    onAccount (groupInvocation env) (BridgeEnv.pda env) := ⟨_, _, rfl, rfl⟩

theorem first_tracked
    (hbacklog : core.pendingMintTxos = firstBacklog mintBufferKey 1 depositArea depositTxos) :
    mintBufferKey = core.tracker.lastFinalizedAutoClaimMintsStorageAccount := by
  rw [PsyBridgeProgramState.tracker, hbacklog]
  rfl

theorem claimed_written (hlists : ListsDeposit env inv) (hs : Holds env l ⟨core, mintKey⟩) :
    writeState inv l (BridgeEnv.pda env) ⟨claimed core, mintKey⟩ =
      .ok (install env l ⟨claimed core, mintKey⟩) :=
  writeState_ok.mpr ⟨.inr ⟨(congrArg Account.owner hs).trans hlists.program.symm,
    ⟨_, hlists.state, rfl, rfl⟩⟩, (Holds.setData_eq_install hs).symm⟩

theorem group_step {es : List Effect} (hs : Holds env l ⟨core, mintKey⟩)
    (hoperator : core.accessControl.operatorPubkey = operatorKey)
    (hbacklog : core.pendingMintTxos = firstBacklog mintBufferKey 1 depositArea depositTxos)
    (minted : GroupMinted env (groupInvocation env) (install env l ⟨claimed core, mintKey⟩)
      ⟨BridgeEnv.pda env, false, true⟩ ⟨mintBufferKey, false, true⟩ ⟨mintKey, false, true⟩
      [⟨recipientKey, false, true⟩] ⟨true, 1, 104⟩ false true l' es) :
    Step env l (.bridge ⟨groupInvocation env, .processMintGroup 0 253 true, es, l, l'⟩) l' :=
  step_of_accepted rfl (.processMintGroup rfl rfl (congrArg Account.data hs)
    (first_tracked hbacklog)
    rfl hoperator.symm (runAutoMintGroupPrecheck_ok.mpr (first_group_claims hbacklog)) rfl
    (claimed_written (groupInvocation_lists env) hs) minted)

/-- The deposit of the first block is uploaded, committed to and minted. -/
theorem deposit_record_committed :
    ∃ l₁ es₁ l₂ es₂ l₃ es₃ l₄,
      Run (Step cluster) freshLedger (uploads.map (.buffer uploadInvocation)) l₁ ∧
      Step cluster l₁ (.bridge (genesisCall es₁ l₁ l₂)) l₂ ∧
      Step cluster l₂ (.bridge (updateCall es₂ l₂ l₃)) l₃ ∧
      Step cluster l₃ (.bridge ⟨groupInvocation cluster, .processMintGroup 0 253 true, es₃, l₃,
        l₄⟩) l₄ ∧
      es₃.head? = some (.mintRecord 104 ⟨recipientKey, 990⟩ (depositMint cluster)) ∧
      ∃ hash count hashes x,
        MintsCommitted cluster (groupInvocation cluster) es₃ hash 0 count hashes x := by
  have hpda : BridgeEnv.pda cluster ≠ zeroBytes := (ne_pda (by decide)).symm
  obtain ⟨l₁, hran, hmints, htxos, hmint, hrecipient, hunused⟩ := uploads_ran
  rw [← cluster_pda] at hunused
  obtain ⟨es₁, _, h₁, rfl⟩ := genesis_step hunused
  obtain ⟨es₂, l₃, core, h₂, hs, hbacklog, haccess, hbuffer, hkept⟩ :=
    firstBlock_updated hmints htxos
  have hupdate := step_of_accepted rfl (.blockUpdate h₂)
  obtain ⟨es₃, l₄, hminted, hes₃⟩ := cluster_group_minted (groupInvocation_lists cluster) hbuffer
    ((hkept _ (by decide) (by decide)).trans hmint)
    ((hkept _ (by decide) (by decide)).trans hrecipient)
  have h₃ := group_step hs (congrArg _ haccess) hbacklog hminted
  obtain ⟨_, _, entry, count, hashes, x, -, -, -, hcommitted⟩ :=
    minted_records_committed cluster_guarded cluster_token hpda
    (fun k hk => absurd hk (freshLedger_owner k)) (upload_run hran) h₁ rfl
    (congrArg Account.data hunused) (.single hupdate) h₃ (groupInvocation_on cluster) rfl
    (by rw [List.forall_mem_singleton]; exact id)
    (List.forall_mem_append.mpr
      ⟨List.forall_mem_map.mpr fun _ _ => trivial, List.forall_mem_singleton.mpr False.elim⟩)
    (List.forall_mem_append.mpr
      ⟨List.forall_mem_map.mpr uploads_hashed, List.forall_mem_singleton.mpr trivial⟩)
    (by rw [List.forall_mem_singleton]; trivial)
  exact ⟨l₁, es₁, _, es₂, l₃, es₃, l₄, upload_run hran, h₁, hupdate, h₃, hes₃, _, count, hashes, x,
    hcommitted⟩

end Samples

end CommittedMints
