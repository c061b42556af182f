import Mathlib.Data.Finset.Card
import PsyDogeBridge.BacklogSteps

/-! The backlog while its blocks are minted: which groups of the current block remain, and which
records of its buffer the claim of a group mints. -/
namespace MintBacklog

open PodLayout CheckedSteps SolanaRuntime BridgeData MintGroups PendingMintsTracker
  FinalizedBlockMintTxoManager ProgramState BlockTransition TransitionFacts BridgeCalls
  BridgeProcessor AcceptedInstructions BridgeSystem PendingMintBuffer BufferSteps StateHistory
  BufferLocks BacklogSteps

section Tracker

variable {t : PendingMintsTracker} {count : UInt16} {g : ℕ}

def freeGroups (t : PendingMintsTracker) (n : ℕ) : Finset ℕ :=
  (Finset.range (groupCount n)).filter fun g => t.isClaimed g = false

variable {n : ℕ}

theorem mem_freeGroups :
    g ∈ freeGroups t n ↔ g < groupCount n ∧ t.isClaimed g = false := by
  rw [freeGroups, Finset.mem_filter, Finset.mem_range]

structure Tracking (t : PendingMintsTracker) (count : UInt16) : Prop where
  total : t.totalPendingMints = count.toUInt32
  remaining : t.pendingMintsGroupsRemaining.toNat = (freeGroups t count.toNat).card

theorem freshTracker_tracking (account : Vector UInt8 32) (count : UInt16) :
    Tracking (freshTracker account count) count := by
  refine ⟨rfl, ?_⟩
  rw [freshTracker_remaining, freeGroups, Finset.filter_true_of_mem, Finset.card_range]
  intro g _
  exact freshTracker_free account count g

theorem freeGroups_claim (hg : g < 256) :
    freeGroups (t.claim g) n = (freeGroups t n).erase g := by
  ext k
  rw [Finset.mem_erase, mem_freeGroups, mem_freeGroups, claim_isClaimed hg, Bool.or_eq_false_iff,
    decide_eq_false_iff_not]
  constructor
  · intro ⟨hk, hfree, hne⟩
    exact ⟨Ne.symm hne, hk, hfree⟩
  · intro ⟨hne, hk, hfree⟩
    exact ⟨hk, hfree, Ne.symm hne⟩

def recordArea (n : ℕ) : ℕ := 72 + 32 * groupCount n

section

variable (h : Tracking t count)
include h

theorem Tracking.count_toNat :
    t.totalPendingMints.toNat % 65536 = count.toNat := by
  rw [h.total, UInt16.toNat_toUInt32]
  exact Nat.mod_eq_of_lt count.toNat_lt

theorem Tracking.groups :
    t.getCurrentTotalPendingMintsGroups.toNat = groupCount count.toNat := by
  rw [getCurrentTotalPendingMintsGroups_toNat, h.count_toNat]

theorem Tracking.claim (hrem : t.pendingMintsGroupsRemaining ≠ 0) (hg : g < 256)
    (hin : g < groupCount count.toNat) (hfree : t.isClaimed g = false) :
    Tracking (t.claim g) count := by
  refine ⟨h.total, ?_⟩
  have hstep := claim_remaining_toNat (g := g) hrem
  rw [freeGroups_claim hg, Finset.card_erase_of_mem (mem_freeGroups.mpr ⟨hin, hfree⟩),
    ← h.remaining]
  omega

theorem Tracking.mintsCount {g : UInt16} (hin : g < t.getCurrentTotalPendingMintsGroups) :
    (mintsCountForGroup t g).toNat = groupSize count.toNat g.toNat := by
  have h24 : PM_MAX_PENDING_MINTS_PER_GROUP_U16.toNat = 24 := rfl
  have h1 : (1 : UInt16).toNat = 1 := rfl
  have hgroups := h.groups
  have hlt := UInt16.lt_iff_toNat_lt.mp hin
  have hcount : t.totalPendingMints.toUInt16.toNat = count.toNat := by
    rw [UInt32.toNat_toUInt16]
    exact h.count_toNat
  have hlast : (t.getCurrentTotalPendingMintsGroups - 1).toNat = groupCount count.toNat - 1 := by
    rw [UInt16.toNat_sub_of_le _ _ (UInt16.le_iff_toNat_le.mpr (by omega)), hgroups, h1]
  have hrem : (t.totalPendingMints.toUInt16 % PM_MAX_PENDING_MINTS_PER_GROUP_U16).toNat =
      count.toNat % 24 := by
    rw [UInt16.toNat_mod, hcount, h24]
  rw [hgroups] at hlt
  unfold groupCount at hlast hlt
  unfold mintsCountForGroup groupSize
  by_cases heq : g = t.getCurrentTotalPendingMintsGroups - 1
  · have hg := congrArg UInt16.toNat heq
    rw [hlast] at hg
    rw [if_pos heq]
    dsimp only
    split
    · next h0 =>
      rw [h0] at hrem
      have h0 : (0 : UInt16).toNat = 0 := rfl
      omega
    · next h0 =>
      have hne : count.toNat % 24 ≠ 0 := by
        intro hz
        exact h0 (UInt16.toNat_inj.mp (hrem.trans hz))
      omega
  · have hg : g.toNat ≠ (count.toNat + 23) / 24 - 1 := by
      intro hg
      exact heq (UInt16.toNat_inj.mp (hg.trans hlast.symm))
    rw [if_neg heq, h24]
    omega

theorem Tracking.startOffset {g : UInt16} (hg : g.toNat < 256) :
    getNthPendingMintOffset t.getCurrentTotalPendingMintsGroups
      (g * PM_MAX_PENDING_MINTS_PER_GROUP_U16) = recordArea count.toNat + 960 * g.toNat := by
  have hmul : (g * PM_MAX_PENDING_MINTS_PER_GROUP_U16).toNat = g.toNat * 24 := by
    rw [UInt16.toNat_mul]
    exact Nat.mod_eq_of_lt (by change g.toNat * 24 < 65536; omega)
  change 72 + _ * 32 + _ * 40 = _
  rw [hmul, h.groups, recordArea]
  omega

end

end Tracker

section Backlog

variable {c : Crypto} {m m' : FinalizedBlockMintTxoManager} {s s' : PsyBridgeProgramState}

/-- The cursor stays inside the backlog, and while groups remain it is at a block with mints. -/
structure WellFormed (m : FinalizedBlockMintTxoManager) : Prop where
  few : m.pendingFinalizedInfoTotalCount.toNat ≤ 8
  within : m.pendingFinalizedInfoCurrentIndex.toNat ≤ m.pendingFinalizedInfoTotalCount.toNat
  current : m.currentPendingMintsTracker.pendingMintsGroupsRemaining ≠ 0 →
    m.pendingFinalizedInfoCurrentIndex.toNat < m.pendingFinalizedInfoTotalCount.toNat ∧
    (∃ e, m.pendingFinalizedInfo[m.pendingFinalizedInfoCurrentIndex.toNat]? = some e ∧
      e.isEmpty = false) ∧
    ∃ count, Tracking m.currentPendingMintsTracker count

theorem default_wellFormed : WellFormed .default :=
  ⟨Nat.zero_le 8, Nat.le_refl 0, fun h => absurd rfl h⟩

variable {count j : UInt16} {bridge account : Vector UInt8 32} {height : UInt32}
  {mintMem txoMem : Bytes} {items : List FinalizedBlockMintTxoInfo} {e : FinalizedBlockMintTxoInfo}

section

variable (h : Opens c m height items bridge account txoMem mintMem count m')
include h

theorem Opens.tracker :
    m'.currentPendingMintsTracker = freshTracker account count := by
  rw [h.eq]
  rfl

theorem Opens.entry {i : ℕ} (hi : i < items.length) :
    m'.pendingFinalizedInfo[i]? = some items[i] := by
  have h8 : i < 8 := Nat.lt_of_lt_of_le hi h.short
  rw [h.eq, opened, Vector.getElem?_eq_getElem h8, Vector.getElem_ofFn]
  simp [hi]

theorem Opens.total :
    m'.pendingFinalizedInfoTotalCount.toNat = items.length := by
  obtain ⟨e, rest, hitems, -⟩ := h.head
  have hshort := h.short
  rw [h.eq]
  exact ofNat_length_pos (by rw [hitems]; exact Nat.succ_pos _) hshort

theorem Opens.wellFormed :
    WellFormed m' := by
  obtain ⟨e, rest, hitems, he, -⟩ := h.head
  have htotal := Opens.total h
  have hpos : 0 < items.length := by
    rw [hitems]
    exact Nat.succ_pos _
  have hfirst := Opens.entry h hpos
  have hcurrent : m'.pendingFinalizedInfoCurrentIndex.toNat = 0 := by
    rw [h.eq]
    rfl
  refine ⟨?_, ?_, ?_⟩
  · rw [htotal]
    exact h.short
  · rw [hcurrent]
    exact Nat.zero_le _
  · intro _
    rw [hcurrent, htotal]
    refine ⟨hpos, ⟨_, hfirst, ?_⟩, count, ?_⟩
    · simpa [hitems] using he
    · rw [Opens.tracker h]
      exact freshTracker_tracking account count

end

structure SameBlocks (m m' : FinalizedBlockMintTxoManager) : Prop where
  info : m'.pendingFinalizedInfo = m.pendingFinalizedInfo
  total : m'.pendingFinalizedInfoTotalCount = m.pendingFinalizedInfoTotalCount
  height : m'.startBlockHeight = m.startBlockHeight

structure Minting (m : FinalizedBlockMintTxoManager) (j : ℕ) (e : FinalizedBlockMintTxoInfo) :
    Prop where
  after : m.pendingFinalizedInfoCurrentIndex.toNat ≤ j
  inside : j < m.pendingFinalizedInfoTotalCount.toNat
  skipped : ∀ k e', m.pendingFinalizedInfoCurrentIndex.toNat ≤ k → k < j →
    m.pendingFinalizedInfo[k]? = some e' → e'.isEmpty = true
  entry : m.pendingFinalizedInfo[j]? = some e
  nonempty : e.isEmpty = false

theorem WellFormed.minting (hw : WellFormed m)
    (hrem : m.currentPendingMintsTracker.pendingMintsGroupsRemaining ≠ 0) :
    ∃ entry, Minting m m.pendingFinalizedInfoCurrentIndex.toNat entry := by
  obtain ⟨hlt, ⟨entry, hentry, hne⟩, -⟩ := hw.current hrem
  exact ⟨entry, Nat.le_refl _, hlt, fun k e h₁ h₂ => absurd h₂ (Nat.not_lt.mpr h₁), hentry, hne⟩

theorem NextBlock.minting (h : NextBlock c m bridge txoMem mintMem j e count) :
    Minting m j.toNat e :=
  ⟨h.after, h.inside, h.skipped, h.entry, h.nonempty⟩

theorem NextBlock.wellFormed (hw : WellFormed m)
    (h : NextBlock c m bridge txoMem mintMem j e count) :
    WellFormed (started m j account count.toUInt32 (computeMintGroupInfo count).1.toUInt32) := by
  refine ⟨hw.few, Nat.le_of_lt h.inside, ?_⟩
  intro _
  exact ⟨h.inside, ⟨e, h.entry, h.nonempty⟩, count, freshTracker_tracking account count⟩

section Claims

variable {g : UInt16} {account : Vector UInt8 32} {claim : GroupClaim}

section

variable (h : ClaimsGroup s g account s' claim)
include h

theorem ClaimsGroup.backlog :
    s'.pendingMintTxos = afterClaim s.pendingMintTxos g.toNat := by
  rw [h.state]

theorem ClaimsGroup.sameBlocks :
    SameBlocks s.pendingMintTxos s'.pendingMintTxos := by
  rw [ClaimsGroup.backlog h]
  exact ⟨rfl, rfl, rfl⟩

theorem ClaimsGroup.tracker :
    s'.tracker = s.tracker.claim g.toNat := by
  rw [h.state]
  rfl

variable {count : UInt16}

theorem ClaimsGroup.inGroup (ht : Tracking s.tracker count) :
    g.toNat < groupCount count.toNat := by
  rw [← ht.groups]
  exact UInt16.lt_iff_toNat_lt.mp h.inside

theorem ClaimsGroup.tracking (ht : Tracking s.tracker count) : Tracking s'.tracker count := by
  rw [ClaimsGroup.tracker h]
  exact ht.claim h.remaining h.bitmap (ClaimsGroup.inGroup h ht) h.fresh

/-- The cursor moves on when the last group of its block is claimed. -/
theorem ClaimsGroup.index (hw : WellFormed s.pendingMintTxos) :
    s'.pendingMintTxos.pendingFinalizedInfoCurrentIndex.toNat =
      if s'.tracker.pendingMintsGroupsRemaining = 0 then
        s.pendingMintTxos.pendingFinalizedInfoCurrentIndex.toNat + 1
      else s.pendingMintTxos.pendingFinalizedInfoCurrentIndex.toNat := by
  have h1 : (1 : UInt16).toNat = 1 := rfl
  obtain ⟨hlt, -, -⟩ := hw.current h.remaining
  have hfew := hw.few
  rw [ClaimsGroup.backlog h, ClaimsGroup.tracker h]
  unfold afterClaim
  dsimp only
  change UInt16.toNat (if (s.tracker.claim g.toNat).isEmpty = true ∧ _ then _ else _) = _
  by_cases h0 : (s.tracker.claim g.toNat).pendingMintsGroupsRemaining = 0
  · have hempty : (s.tracker.claim g.toNat).isEmpty = true := by
      rw [PendingMintsTracker.isEmpty, h0]
      rfl
    rw [if_pos ⟨hempty, UInt16.lt_iff_toNat_lt.mpr hlt⟩, if_pos h0, UInt16.toNat_add, h1]
    omega
  · have hempty : ¬ (s.tracker.claim g.toNat).isEmpty = true := by
      rw [PendingMintsTracker.isEmpty, beq_iff_eq]
      exact h0
    rw [if_neg fun hand => hempty hand.1, if_neg h0]

theorem ClaimsGroup.wellFormed (hw : WellFormed s.pendingMintTxos) :
    WellFormed s'.pendingMintTxos := by
  obtain ⟨hlt, hentry, count, htracking⟩ := hw.current h.remaining
  have hindex := ClaimsGroup.index h hw
  have hsame := ClaimsGroup.sameBlocks h
  refine ⟨?_, ?_, ?_⟩
  · rw [hsame.total]
    exact hw.few
  · rw [hsame.total, hindex]
    split <;> omega
  · intro hrem
    rw [if_neg hrem] at hindex
    rw [hsame.total, hsame.info, hindex]
    exact ⟨hlt, hentry, count, ClaimsGroup.tracking h htracking⟩

theorem ClaimsGroup.reads (ht : Tracking s.tracker count) :
    claim.startOffset = recordArea count.toNat + 960 * g.toNat ∧
      claim.mintsCount.toNat = groupSize count.toNat g.toNat := by
  rw [h.claim]
  exact ⟨ht.startOffset h.bitmap, ht.mintsCount h.inside⟩

end

end Claims

theorem StateStep.wellFormed {env : BridgeEnv} {ix : BridgeInstruction} {st st' : BridgeState}
    (h : StateStep env ix st st') (hw : WellFormed st.coreState.pendingMintTxos) :
    WellFormed st'.coreState.pendingMintTxos := by
  by_cases hix : movesBacklog ix
  · cases h with
    | initializeBridge => exact default_wellFormed
    | blockUpdate run =>
      obtain ⟨m, recent, hbacklog, -, rfl⟩ := run.update
      cases hbacklog with
      | kept _ _ eq => exact eq ▸ hw
      | opens _ _ opens => exact Opens.wellFormed opens
    | processReorgBlocks run =>
      obtain ⟨m, hbacklog, rfl⟩ := run.update
      cases hbacklog with
      | kept _ eq => exact eq ▸ hw
      | opens _ _ opens => exact Opens.wellFormed opens
    | processMintGroup run => exact ClaimsGroup.wellFormed run hw
    | processMintGroupAutoAdvance setup run =>
      refine ClaimsGroup.wellFormed run ?_
      rcases setup with rfl | ⟨bridge, txoMem, mintMem, hsetup⟩
      · exact hw
      · obtain ⟨j, e, count, hnext, rfl⟩ := (runSetupNextPendingBuffer_ok hw.few).mp hsetup
        exact NextBlock.wellFormed hw hnext
    | _ => exact hix.elim
  · rw [StateStep.backlog_kept h hix]
    exact hw

end Backlog

section Records

variable {env : BridgeEnv} {inv : Invocation} {l l' : Ledger} {es : List Effect}

def recordAt (mem : Bytes) (offset : ℕ) : PendingMint :=
  PendingMint.pod.decode (slice mem offset 40)

/-- The records that an instruction minted, with the offsets at which it read them. -/
def minted (es : List Effect) : List (ℕ × PendingMint) :=
  es.filterMap fun
    | .mintRecord offset record _ => some (offset, record)
    | .call _ => none

/-- The token program is called only to mint a record, with its amount, to its recipient. -/
def MintsOwn (env : BridgeEnv) (inv : Invocation) : Effect → Prop
  | .mintRecord _ record c => ∃ mint recipient authority,
      c = mintToCall env inv mint recipient authority record.amount ∧ recipient.key =
        record.recipient
  | .call c => c.programId ≠ TOKEN_PROGRAM_ID

def recordsFrom (mem : Bytes) (start p n : ℕ) : List (ℕ × PendingMint) :=
  (List.range' p n).map fun q => (start + 40 * q, recordAt mem (start + 40 * q))

variable {recipients : List AccountInfo} {n start : ℕ} {b : Borrows}
  {authority buffer : AccountInfo} {d d' : Bytes}

theorem mintRecords_minted {mint : AccountInfo} {mem : Bytes} {p : ℕ}
    (h : mintRecords env inv b mint authority recipients mem start n p l = .ok (l', es)) :
    minted es = recordsFrom mem start p n ∧ ∀ e ∈ es, MintsOwn env inv e := by
  induction n generalizing p l es with
  | zero =>
    cases h
    exact ⟨rfl, fun e he => absurd he List.not_mem_nil⟩
  | succ n ih =>
    simp only [mintRecords, bind_ok, ensure_ok, exists_const, mintTo_ok, pure_ok, Prod.exists,
      Prod.mk.injEq] at h
    obtain ⟨-, l₁, call, ⟨recipient, -, hkey, hcall, -⟩, _, es₂, hrest, rfl, hes⟩ := h
    obtain ⟨hminted, hown⟩ := ih hrest
    have hoffset : start + p * PM_DA_PENDING_MINT_SIZE = start + 40 * p := by
      change start + p * 40 = _
      omega
    rw [hoffset] at hkey hcall hes
    subst hes
    constructor
    · rw [recordsFrom, List.range'_succ, List.map_cons, ← recordsFrom, ← hminted]
      rfl
    · intro e he
      rcases List.mem_cons.mp he with rfl | he
      · exact ⟨mint, recipient, authority, hcall, hkey⟩
      · exact hown e he

theorem slice_eq_of_drop {o : ℕ} (h : d.drop HEADER_SIZE = d'.drop HEADER_SIZE)
    (ho : HEADER_SIZE ≤ o) : slice d o n = slice d' o n := by
  have hsplit : o = HEADER_SIZE + (o - HEADER_SIZE) := by omega
  rw [slice, slice, hsplit, ← List.drop_drop, ← List.drop_drop, h]

theorem withHeader_drop (h : Header) :
    (withHeader d h).drop HEADER_SIZE = d.drop HEADER_SIZE := by
  have hlen : (PendingMintsBufferStateHeader.pod.encode h).length = HEADER_SIZE :=
    Pod.encode_length _ _
  rw [withHeader, splice, List.take_zero, List.nil_append, hlen, Nat.zero_add, List.drop_left' hlen]

theorem recordsFrom_congr (p n : ℕ) (h : d.drop HEADER_SIZE = d'.drop HEADER_SIZE)
    (ho : HEADER_SIZE ≤ start) :
    recordsFrom d start p n = recordsFrom d' start p n := by
  refine List.map_congr_left fun q _ => ?_
  rw [recordAt, recordAt, slice_eq_of_drop h (by omega)]

theorem minted_append (es es' : List Effect) : minted (es ++ es') = minted es ++ minted es' :=
  List.filterMap_append

theorem lockerIf_minted {tag : UInt8} {flag : Bool} {r : Ledger × List Effect}
    (h : CalledIf env inv flag b (lockerCall env inv tag buffer authority) l r) :
    minted r.2 = [] ∧ ∀ e ∈ r.2, MintsOwn env inv e := by
  constructor
  · rw [minted, List.filterMap_eq_nil_iff]
    intro e he
    rw [calledIf_effects h e he]
  · intro e he
    rw [calledIf_effects h e he]
    exact buffer_ne_token

/-- Minting a claimed group reads its records from what the buffer holds behind the header. -/
theorem groupMinted_records {bridgeState dogeMint : AccountInfo} {claim : GroupClaim}
    {lockFirst shouldUnlock : Bool}
    (h : GroupMinted env inv l bridgeState buffer dogeMint recipients claim lockFirst shouldUnlock
      l' es) :
    ∃ mem, mem.drop HEADER_SIZE = (l buffer.key).data.drop HEADER_SIZE ∧
      minted es = recordsFrom mem claim.startOffset 0 claim.mintsCount.toNat ∧
      ∀ e ∈ es, MintsOwn env inv e := by
  obtain @⟨l₁, l₂, l₃, locked, mints, unlocked, -, hlock, hmint, -, hunlock⟩ := h
  obtain ⟨hminted, hown⟩ := mintRecords_minted hmint
  obtain ⟨hlocked, hownLocked⟩ := lockerIf_minted hlock
  obtain ⟨hunlocked, hownUnlocked⟩ := lockerIf_minted hunlock
  dsimp only at hlocked hownLocked hunlocked hownUnlocked
  refine ⟨(l₁ buffer.key).data, ?_, ?_, ?_⟩
  · cases lockFirst with
    | true =>
      have hlocks := locks_of_calledIf hlock
      dsimp only at hlocks
      rw [hlocks.eq, setData_self]
      exact withHeader_drop _
    | false => rw [show l₁ = l from congrArg Prod.fst hlock]
  · rw [minted_append, minted_append, hlocked, hunlocked, hminted, List.nil_append,
      List.append_nil]
  · intro e he
    rcases List.mem_append.mp he with he | he
    · rcases List.mem_append.mp he with he | he
      · exact hownLocked e he
      · exact hown e he
    · exact hownUnlocked e he

end Records

end MintBacklog
