import PsyDogeBridge.CommittedMints

/-! What is minted for the blocks of one update, from the ready state before it to the next one. The
groups of a block are claimed in any order, each once; a block is done before the next one
starts. -/
namespace MintLog

open PodLayout CheckedSteps SolanaRuntime BridgeData MintGroups PendingMintsTracker
  FinalizedBlockMintTxoManager ProgramState BlockTransition TransitionFacts BridgeCalls
  BridgeProcessor AcceptedInstructions BridgeSystem PendingMintBuffer BufferSteps StateHistory
  BufferLocks BacklogSteps MintBacklog CommittedMints LocalCluster RecordedBuffer

section Log

/-- The group of one accepted instruction: the height of its block, the buffer with what it held
behind the header, and the records that were minted, with the offsets at which they were read. -/
structure GroupMint where
  height : ℕ
  group : ℕ
  buffer : Pubkey
  contents : Bytes
  records : List (ℕ × PendingMint)

def mintingIndex (m : FinalizedBlockMintTxoManager) : ℕ :=
  m.pendingFinalizedInfoCurrentIndex.toNat +
    (m.pendingFinalizedInfo.toList.drop m.pendingFinalizedInfoCurrentIndex.toNat).findIdx
      fun e => !e.isEmpty

def backlogIn (env : BridgeEnv) (l : Ledger) : FinalizedBlockMintTxoManager :=
  (BridgeState.pod.decode (l (BridgeEnv.pda env)).data).coreState.pendingMintTxos

def groupMint (env : BridgeEnv) (call : BridgeCall) (buffer : Pubkey) (g : UInt16) : GroupMint where
  height := (backlogIn env call.before).startBlockHeight.toNat +
    mintingIndex (backlogIn env call.before)
  group := g.toNat
  buffer := buffer
  contents := (call.before buffer).data.drop HEADER_SIZE
  records := minted call.effects

def mintedGroup (env : BridgeEnv) : Event → Option GroupMint
  | .bridge call =>
    match call.inv.accounts, mintsGroup call.ix with
    | state :: buffer :: _, some g =>
      if state.key = BridgeEnv.pda env then some (groupMint env call buffer.key g) else none
    | _, _ => none
  | _ => none

def mintLog (env : BridgeEnv) (es : List Event) : List GroupMint := es.filterMap (mintedGroup env)

def ofBlock (log : List GroupMint) (height : ℕ) : List GroupMint :=
  log.filter fun x => decide (x.height = height)

/-- Each record by the height of its block and its offset in the buffer. -/
def recordKeys (log : List GroupMint) : List (ℕ × ℕ) :=
  log.flatMap fun x => x.records.map fun r => (x.height, r.1)

variable {env : BridgeEnv} {l : Ledger} {st : BridgeState} {m : FinalizedBlockMintTxoManager}

theorem Holds.backlogIn_eq (hs : Holds env l st) :
    backlogIn env l = st.coreState.pendingMintTxos := by
  rw [backlogIn, show l (BridgeEnv.pda env) = _ from hs, Pod.decode_encode]

theorem Minting.index_eq {j : ℕ} {entry : FinalizedBlockMintTxoInfo} (h : Minting m j entry) :
    mintingIndex m = j := by
  have hafter := h.after
  have hget (k : ℕ) : (m.pendingFinalizedInfo.toList.drop
      m.pendingFinalizedInfoCurrentIndex.toNat)[k]? =
      m.pendingFinalizedInfo[m.pendingFinalizedInfoCurrentIndex.toNat + k]? := by
    rw [List.getElem?_drop, Vector.getElem?_toList]
  obtain ⟨k, rfl⟩ := Nat.exists_eq_add_of_le hafter
  obtain ⟨hk, hentry⟩ := List.getElem?_eq_some_iff.mp ((hget k).trans h.entry)
  rw [mintingIndex, (List.findIdx_eq hk).mpr]
  refine ⟨by rw [hentry, h.nonempty]; rfl, ?_⟩
  intro i hi
  have hskipped := h.skipped _ _ (Nat.le_add_right _ i) (by omega)
    ((hget i).symm.trans (List.getElem?_eq_getElem (by omega)))
  rw [hskipped]
  rfl

theorem mintLog_append (es es' : List Event) :
    mintLog env (es ++ es') = mintLog env es ++ mintLog env es' := List.filterMap_append

theorem mem_ofBlock {log : List GroupMint} {height : ℕ} {x : GroupMint} :
    x ∈ ofBlock log height ↔ x ∈ log ∧ x.height = height := by
  rw [ofBlock, List.mem_filter, decide_eq_true_eq]

theorem mintedGroup_still {e : Event} (h : still env e) : mintedGroup env e = none := by
  cases e with
  | bridge call =>
    rw [mintedGroup]
    split
    · next state buffer rest g haccounts hgroup =>
      rw [if_neg]
      intro hstate
      refine h call rfl ⟨state, _, haccounts, hstate⟩ ?_
      cases hix : call.ix with
      | processMintGroup => trivial
      | processMintGroupAutoAdvance => trivial
      | _ =>
        rw [hix] at hgroup
        cases hgroup
    · rfl
  | buffer => rfl
  | other => rfl

end Log

section Records

variable {mem : Bytes} {start n : ℕ}

theorem recordsFrom_append (p k : ℕ) :
    recordsFrom mem start p n ++ recordsFrom mem start (p + n) k =
      recordsFrom mem start p (n + k) := by
  rw [recordsFrom, recordsFrom, recordsFrom, ← List.map_append, List.range'_append_1]

theorem recordsFrom_shift (p : ℕ) :
    recordsFrom mem (start + 40 * p) 0 n = recordsFrom mem start p n := by
  have hrange : List.range' p n = (List.range' 0 n).map (p + ·) := by
    rw [List.map_add_range', Nat.add_zero]
  rw [recordsFrom, recordsFrom, hrange, List.map_map]
  refine List.map_congr_left fun q _ => ?_
  rw [Function.comp, Nat.mul_add, Nat.add_assoc]

def groupRecords (mem : Bytes) (n g : ℕ) : List (ℕ × PendingMint) :=
  recordsFrom mem (recordArea n + 960 * g) 0 (groupSize n g)

theorem groupRecords_all (mem : Bytes) (n : ℕ) :
    (List.range (groupCount n)).flatMap (groupRecords mem n) =
      recordsFrom mem (recordArea n) 0 n := by
  have hfirst (k : ℕ) (hk : k ≤ groupCount n) :
      (List.range k).flatMap (groupRecords mem n) =
        recordsFrom mem (recordArea n) 0 (min (24 * k) n) := by
    induction k with
    | zero => rw [Nat.mul_zero, Nat.zero_min, List.range_zero, List.flatMap_nil]; rfl
    | succ k ih =>
      have hsize : min (24 * k) n = 24 * k ∧ 24 * k + groupSize n k = min (24 * (k + 1)) n := by
        unfold groupCount at hk
        unfold groupSize
        omega
      have hshift : recordArea n + 960 * k = recordArea n + 40 * (24 * k) := by omega
      rw [List.range_succ, List.flatMap_append, List.flatMap_singleton, ih (by omega), groupRecords,
        hshift, recordsFrom_shift, hsize.1, ← hsize.2]
      have happend : recordsFrom mem (recordArea n) 0 (24 * k) ++
          recordsFrom mem (recordArea n) (0 + 24 * k) (groupSize n k) =
          recordsFrom mem (recordArea n) 0 (24 * k + groupSize n k) := recordsFrom_append 0 _
      rw [Nat.zero_add] at happend
      exact happend
  have hall : min (24 * groupCount n) n = n := by
    unfold groupCount
    omega
  rw [hfirst _ (Nat.le_refl _), hall]

theorem mem_groupRecords {g : ℕ} {r : ℕ × PendingMint} (h : r ∈ groupRecords mem n g) :
    ∃ p < groupSize n g, r.1 = recordArea n + 960 * g + 40 * p := by
  obtain ⟨q, hq, rfl⟩ := List.mem_map.mp h
  rw [List.mem_range'_1] at hq
  exact ⟨q, by omega, rfl⟩

theorem groupRecords_offsets (mem : Bytes) (n g : ℕ) :
    ((groupRecords mem n g).map Prod.fst).Nodup := by
  rw [groupRecords, recordsFrom, List.map_map]
  refine List.Nodup.map ?_ List.nodup_range'
  intro p q heq
  simp only [Function.comp] at heq
  omega

end Records

structure BlockSource where
  buffer : Pubkey
  mem : Bytes
  count : UInt16

variable {env : BridgeEnv} {l l' : Ledger} {m₁ m : FinalizedBlockMintTxoManager}
  {log : List GroupMint} {src : ℕ → BlockSource} {s' core : PsyBridgeProgramState} {g : UInt16}

section Progress

structure ReadFrom (src : BlockSource) (x : GroupMint) : Prop where
  buffer : x.buffer = src.buffer
  contents : x.contents = src.mem.drop HEADER_SIZE
  long : recordArea src.count.toNat + 40 * src.count.toNat ≤ src.mem.length
  group : x.group < groupCount src.count.toNat
  records : x.records = groupRecords src.mem src.count.toNat x.group

def blockHeight (m : FinalizedBlockMintTxoManager) (j : ℕ) : ℕ := m.startBlockHeight.toNat + j

def groupsAt (log : List GroupMint) (height : ℕ) : List ℕ :=
  (ofBlock log height).map GroupMint.group

/-- The block at the cursor, of which the groups in the log are claimed. -/
structure Open (env : BridgeEnv) (l : Ledger) (m : FinalizedBlockMintTxoManager)
    (src : BlockSource) (groups : List ℕ) : Prop where
  buffer : m.currentPendingMintsTracker.lastFinalizedAutoClaimMintsStorageAccount = src.buffer
  apart : src.buffer ≠ BridgeEnv.pda env
  unchanged : (l src.buffer).data.drop HEADER_SIZE = src.mem.drop HEADER_SIZE
  tracking : Tracking m.currentPendingMintsTracker src.count
  mints : ∀ entry, m.pendingFinalizedInfo[m.pendingFinalizedInfoCurrentIndex.toNat]? = some entry →
    MintBufferMatches env.crypto (BridgeEnv.pda env) entry.pendingMintsFinalizedHash src.mem
      src.count
  claimed : ∀ g, g ∈ groups ↔ m.currentPendingMintsTracker.isClaimed g = true

/-- All groups of the block were claimed, each once, from a buffer that the block commits to. -/
structure Done (env : BridgeEnv) (entry : FinalizedBlockMintTxoInfo) (src : BlockSource)
    (groups : List ℕ) : Prop where
  mints : MintBufferMatches env.crypto (BridgeEnv.pda env) entry.pendingMintsFinalizedHash src.mem
    src.count
  all : groups.Perm (List.range (groupCount src.count.toNat))

/-- How far the backlog `m₁` is minted: the blocks before the cursor are done, the groups of the
block at the cursor that are claimed are in the log, and nothing behind it is. -/
structure Progress (env : BridgeEnv) (m₁ : FinalizedBlockMintTxoManager) (src : ℕ → BlockSource)
    (log : List GroupMint) (l : Ledger) (m : FinalizedBlockMintTxoManager) : Prop where
  wellFormed : WellFormed m
  same : SameBlocks m₁ m
  read : ∀ x ∈ log, ReadFrom (src x.height) x
  done : ∀ j entry, j < m.pendingFinalizedInfoCurrentIndex.toNat →
    m.pendingFinalizedInfo[j]? = some entry → entry.isEmpty = false →
    Done env entry (src (blockHeight m j)) (groupsAt log (blockHeight m j))
  current : m.currentPendingMintsTracker.pendingMintsGroupsRemaining ≠ 0 →
    Open env l m (src (blockHeight m m.pendingFinalizedInfoCurrentIndex.toNat))
      (groupsAt log (blockHeight m m.pendingFinalizedInfoCurrentIndex.toNat))
  behind : ∀ x ∈ log, x.height ≤ blockHeight m m.pendingFinalizedInfoCurrentIndex.toNat ∧
    (m.currentPendingMintsTracker.pendingMintsGroupsRemaining = 0 →
      x.height ≠ blockHeight m m.pendingFinalizedInfoCurrentIndex.toNat)
  ordered : log.Pairwise fun x y => x.height ≤ y.height
  once : (log.map fun x => (x.height, x.group)).Nodup

theorem mem_groupsAt {height g : ℕ} :
    g ∈ groupsAt log height ↔ ∃ x ∈ log, x.height = height ∧ x.group = g := by
  rw [groupsAt, List.mem_map]
  constructor
  · rintro ⟨x, hx, hg⟩
    obtain ⟨hmem, hheight⟩ := mem_ofBlock.mp hx
    exact ⟨x, hmem, hheight, hg⟩
  · rintro ⟨x, hmem, hheight, hg⟩
    exact ⟨x, mem_ofBlock.mpr ⟨hmem, hheight⟩, hg⟩

theorem groupsAt_nodup (h : (log.map fun x => (x.height, x.group)).Nodup) (height : ℕ) :
    (groupsAt log height).Nodup := by
  have hsub := (List.Sublist.map (fun x : GroupMint => (x.height, x.group))
    (List.filter_sublist (p := fun x => decide (x.height = height)) (l := log))).nodup h
  refine List.Nodup.of_map (fun g => (height, g)) ?_
  rw [groupsAt, List.map_map]
  have hsame : (ofBlock log height).map ((fun g => (height, g)) ∘ GroupMint.group) =
      (ofBlock log height).map fun x => (x.height, x.group) := by
    refine List.map_congr_left fun x hx => ?_
    rw [Function.comp, (mem_ofBlock.mp hx).2]
  rw [hsame]
  exact hsub

theorem Progress.kept (h : Progress env m₁ src log l m)
    (hkeeps : m.currentPendingMintsTracker.pendingMintsGroupsRemaining ≠ 0 →
      (l' m.currentPendingMintsTracker.lastFinalizedAutoClaimMintsStorageAccount).data.drop
        HEADER_SIZE =
      (l m.currentPendingMintsTracker.lastFinalizedAutoClaimMintsStorageAccount).data.drop
        HEADER_SIZE) : Progress env m₁ src log l' m := by
  refine { h with current := ?_ }
  intro hrem
  have hopen := h.current hrem
  have hkept := hkeeps hrem
  rw [hopen.buffer] at hkept
  exact { hopen with unchanged := hkept.trans hopen.unchanged }

theorem Progress.advance {s : PsyBridgeProgramState} {buffer txos : Pubkey} {j : UInt16}
    {entry : FinalizedBlockMintTxoInfo} {count : UInt16}
    (h : Progress env m₁ src log l s.pendingMintTxos) (apart : buffer ≠ BridgeEnv.pda env)
    (next : NextBlock env.crypto s.pendingMintTxos (BridgeEnv.pda env) (l txos).data
      (l buffer).data j entry count) :
    ∃ src', Progress env m₁ src' log l (started s.pendingMintTxos j buffer count.toUInt32
      (computeMintGroupInfo count).1.toUInt32) := by
  have hidle : s.pendingMintTxos.currentPendingMintsTracker.pendingMintsGroupsRemaining = 0 := by
    have hidle := next.idle
    rw [PendingMintsTracker.isEmpty, beq_iff_eq] at hidle
    exact hidle
  have hbefore : ∀ x ∈ log, x.height < blockHeight s.pendingMintTxos j.toNat := by
    intro x hx
    obtain ⟨hle, hne⟩ := h.behind x hx
    have hafter := next.after
    have hne := hne hidle
    unfold blockHeight at hle hne ⊢
    omega
  have hsame := h.same
  have hheight : blockHeight (started s.pendingMintTxos j buffer count.toUInt32
      (computeMintGroupInfo count).1.toUInt32) = blockHeight s.pendingMintTxos := rfl
  have hnone : groupsAt log (blockHeight s.pendingMintTxos j.toNat) = [] := by
    rw [List.eq_nil_iff_forall_not_mem]
    intro g hg
    obtain ⟨x, hx, heq, -⟩ := mem_groupsAt.mp hg
    exact absurd heq (Nat.ne_of_lt (hbefore x hx))
  refine ⟨Function.update src (blockHeight s.pendingMintTxos j.toNat)
    ⟨buffer, (l buffer).data, count⟩, NextBlock.wellFormed h.wellFormed next,
    ⟨hsame.info, hsame.total, hsame.height⟩, ?_, ?_, ?_, ?_, h.ordered, h.once⟩
  · intro x hx
    rw [Function.update_of_ne (Nat.ne_of_lt (hbefore x hx))]
    exact h.read x hx
  · intro k e hk he hne
    have hk : k < j.toNat := hk
    have hfar : blockHeight s.pendingMintTxos k ≠ blockHeight s.pendingMintTxos j.toNat := by
      unfold blockHeight
      omega
    rw [hheight, Function.update_of_ne hfar]
    by_cases hdone : k < s.pendingMintTxos.pendingFinalizedInfoCurrentIndex.toNat
    · exact h.done k e hdone he hne
    · rw [next.skipped k e (Nat.le_of_not_lt hdone) hk he] at hne
      cases hne
  · intro _
    change Open env l _ (Function.update src (blockHeight s.pendingMintTxos j.toNat) _
      (blockHeight s.pendingMintTxos j.toNat))
        (groupsAt log (blockHeight s.pendingMintTxos j.toNat))
    rw [Function.update_self, hnone]
    refine ⟨rfl, apart, rfl, freshTracker_tracking buffer count, ?_, ?_⟩
    · intro e he
      rw [Option.some.inj (he.symm.trans next.entry)]
      exact next.mints
    · intro g
      change g ∈ [] ↔ (freshTracker buffer count).isClaimed g = true
      rw [freshTracker_free]
      exact ⟨fun hg => absurd hg List.not_mem_nil, fun hg => absurd hg Bool.false_ne_true⟩
  · intro x hx
    have hlt := hbefore x hx
    exact ⟨Nat.le_of_lt hlt, fun _ => Nat.ne_of_lt hlt⟩

theorem groupsAt_snoc (log : List GroupMint) (x : GroupMint) (height : ℕ) :
    groupsAt (log ++ [x]) height =
      groupsAt log height ++ if x.height = height then [x.group] else [] := by
  rw [groupsAt, ofBlock, List.filter_append, List.map_append, List.filter_singleton]
  by_cases hx : x.height = height
  · rw [if_pos hx, decide_eq_true hx]
    rfl
  · rw [if_neg hx, decide_eq_false hx]
    rfl

section Claims

variable {s : PsyBridgeProgramState} {account : Vector UInt8 32} {claim : GroupClaim}
  {x : GroupMint} (h : Progress env m₁ src log l s.pendingMintTxos)
  (claims : ClaimsGroup s g account s' claim)
  (height : x.height = blockHeight s.pendingMintTxos
    s.pendingMintTxos.pendingFinalizedInfoCurrentIndex.toNat)
  (group : x.group = g.toNat)
include h claims height group

theorem mem_claimed (k : ℕ) :
    k ∈ groupsAt (log ++ [x]) x.height ↔ s'.tracker.isClaimed k = true := by
  have hclaimed := (h.current claims.remaining).claimed k
  rw [← height] at hclaimed
  rw [groupsAt_snoc, if_pos rfl, List.mem_append, List.mem_singleton, hclaimed,
    ClaimsGroup.tracker claims, claim_isClaimed claims.bitmap, Bool.or_eq_true, decide_eq_true_eq,
    group, eq_comm (a := k)]

theorem Progress.finished (read : ReadFrom (src x.height) x)
    (once : ((log ++ [x]).map fun x => (x.height, x.group)).Nodup)
    (last : s'.tracker.pendingMintsGroupsRemaining = 0) :
    (groupsAt (log ++ [x]) x.height).Perm
      (List.range (groupCount (src x.height).count.toNat)) := by
  have hopen := h.current claims.remaining
  rw [← height] at hopen
  have htracking := ClaimsGroup.tracking claims hopen.tracking
  have hnone : freeGroups s'.tracker (src x.height).count.toNat = ∅ := by
    rw [← Finset.card_eq_zero, ← htracking.remaining, last]
    rfl
  refine (List.perm_ext_iff_of_nodup (groupsAt_nodup once _) List.nodup_range).mpr fun k => ?_
  rw [List.mem_range]
  constructor
  · intro hk
    obtain ⟨y, hy, hheight, rfl⟩ := mem_groupsAt.mp hk
    rcases List.mem_append.mp hy with hy | hy
    · have hgroup := (h.read y hy).group
      rw [hheight] at hgroup
      exact hgroup
    · rw [List.mem_singleton.mp hy]
      exact read.group
  · intro hk
    rw [mem_claimed h claims height group]
    by_contra hfree
    have hmem : k ∈ freeGroups s'.tracker (src x.height).count.toNat :=
      mem_freeGroups.mpr ⟨hk, Bool.eq_false_iff.mpr hfree⟩
    rw [hnone] at hmem
    exact absurd hmem (Finset.notMem_empty k)

theorem Progress.fresh :
    ((log ++ [x]).map fun x => (x.height, x.group)).Nodup := by
  rw [List.map_append, List.nodup_append]
  refine ⟨h.once, List.nodup_singleton _, ?_⟩
  intro a ha b hb heq
  obtain ⟨y, hy, rfl⟩ := List.mem_map.mp ha
  rw [List.map_singleton, List.mem_singleton] at hb
  rw [hb, Prod.mk.injEq] at heq
  have hclaimed := ((h.current claims.remaining).claimed g.toNat).mp
    (mem_groupsAt.mpr ⟨y, hy, heq.1.trans height, heq.2.trans group⟩)
  rw [show s.pendingMintTxos.currentPendingMintsTracker.isClaimed g.toNat = false from claims.fresh]
    at hclaimed
  cases hclaimed

theorem Progress.mint (read : ReadFrom (src x.height) x)
    (keeps : s'.tracker.pendingMintsGroupsRemaining ≠ 0 →
      (l' account).data.drop HEADER_SIZE = (l account).data.drop HEADER_SIZE) :
    Progress env m₁ src (log ++ [x]) l' s'.pendingMintTxos := by
  have hopen := h.current claims.remaining
  have hsame := ClaimsGroup.sameBlocks claims
  have hindex := ClaimsGroup.index claims h.wellFormed
  have hheight : blockHeight s'.pendingMintTxos = blockHeight s.pendingMintTxos := by
    funext j
    rw [blockHeight, blockHeight, hsame.height]
  have honce := h.fresh claims height group
  have hother {k : ℕ} (hk : k ≠ x.height) : groupsAt (log ++ [x]) k = groupsAt log k := by
    rw [groupsAt_snoc, if_neg (Ne.symm hk), List.append_nil]
  refine ⟨ClaimsGroup.wellFormed claims h.wellFormed,
    ⟨hsame.info.trans h.same.info, hsame.total.trans h.same.total,
      hsame.height.trans h.same.height⟩, ?_, ?_, ?_, ?_, ?_, honce⟩
  · intro y hy
    rcases List.mem_append.mp hy with hy | hy
    · exact h.read y hy
    · rw [List.mem_singleton.mp hy]
      exact read
  · intro j entry hj hentry hne
    rw [hsame.info] at hentry
    rw [hheight]
    by_cases hlast : s'.tracker.pendingMintsGroupsRemaining = 0 ∧
        j = s.pendingMintTxos.pendingFinalizedInfoCurrentIndex.toNat
    · obtain ⟨hlast, rfl⟩ := hlast
      rw [← height]
      rw [← height] at hopen
      exact ⟨hopen.mints entry hentry, h.finished claims height group read honce hlast⟩
    · have hbefore : j < s.pendingMintTxos.pendingFinalizedInfoCurrentIndex.toNat := by
        rw [hindex] at hj
        split at hj
        · next hzero =>
          have hne : j ≠ s.pendingMintTxos.pendingFinalizedInfoCurrentIndex.toNat :=
            fun heq => hlast ⟨hzero, heq⟩
          omega
        · exact hj
      have hk : blockHeight s.pendingMintTxos j ≠ x.height := by
        rw [height, blockHeight, blockHeight]
        omega
      rw [hother hk]
      exact h.done j entry hbefore hentry hne
  · intro hrem
    have hsamecursor := hindex
    rw [if_neg hrem] at hsamecursor
    rw [hheight, hsamecursor, ← height]
    rw [← height] at hopen
    have haccount : account = (src x.height).buffer := claims.buffer.trans hopen.buffer
    refine ⟨?_, hopen.apart, ?_, ClaimsGroup.tracking claims hopen.tracking, ?_, ?_⟩
    · exact (claimed_account claims).trans haccount
    · rw [← haccount, keeps hrem, haccount]
      exact hopen.unchanged
    · intro entry hentry
      rw [hsame.info, hsamecursor] at hentry
      exact hopen.mints entry hentry
    · exact mem_claimed h claims height group
  · intro y hy
    have hle : y.height ≤ x.height := by
      rcases List.mem_append.mp hy with hy | hy
      · rw [height]
        exact (h.behind y hy).1
      · rw [List.mem_singleton.mp hy]
    rw [hheight]
    rw [height, blockHeight] at hle
    rw [blockHeight, hindex]
    split
    · next hzero =>
      refine ⟨by omega, fun _ => by omega⟩
    · next hzero =>
      exact ⟨hle, fun h0 => absurd h0 hzero⟩
  · rw [List.pairwise_append]
    refine ⟨h.ordered, List.pairwise_singleton .., ?_⟩
    intro y hy z hz
    rw [List.mem_singleton.mp hz, height]
    exact (h.behind y hy).1

end Claims

end Progress

section Steps

variable {inv : Invocation} {st : BridgeState} {e : Event}

/-- The buffer that the tracker records while groups remain is not changed behind its header. -/
def KeepsRecorded (env : BridgeEnv) (l l' : Ledger) : Prop :=
  ∀ st', Holds env l' st' → st'.coreState.tracker.pendingMintsGroupsRemaining ≠ 0 →
    (l' st'.coreState.tracker.lastFinalizedAutoClaimMintsStorageAccount).data.drop HEADER_SIZE =
      (l st'.coreState.tracker.lastFinalizedAutoClaimMintsStorageAccount).data.drop HEADER_SIZE

variable {buffer : Pubkey}

theorem GroupStart.progress {jit : Bool} {s₁ : PsyBridgeProgramState} {claim : GroupClaim}
    (h : Progress env m₁ src log l st.coreState.pendingMintTxos)
    (start : GroupStart env l st.coreState buffer jit s₁)
    (claims : ClaimsGroup s₁ g buffer s' claim) :
    ∃ src' entry, Progress env m₁ src' log l s₁.pendingMintTxos ∧
      s₁.pendingMintTxos.startBlockHeight = st.coreState.pendingMintTxos.startBlockHeight ∧
      Minting st.coreState.pendingMintTxos
        s₁.pendingMintTxos.pendingFinalizedInfoCurrentIndex.toNat entry := by
  cases start with
  | current =>
    obtain ⟨entry, hminting⟩ := h.wellFormed.minting claims.remaining
    exact ⟨src, entry, h, rfl, hminting⟩
  | advance apart setup =>
    obtain ⟨j, entry, count, hnext, rfl⟩ := (runSetupNextPendingBuffer_ok h.wellFormed.few).mp setup
    obtain ⟨src', hprogress⟩ := h.advance apart hnext
    exact ⟨src', entry, hprogress, rfl, NextBlock.minting hnext⟩

theorem MintsOn.progress {es : List Effect} (ix : BridgeInstruction) (hs : Holds env l st)
    (h : Progress env m₁ src log l st.coreState.pendingMintTxos)
    (mints : MintsOn env inv l st g core l' es)
    (keeps : core.tracker.pendingMintsGroupsRemaining ≠ 0 →
      (l' core.tracker.lastFinalizedAutoClaimMintsStorageAccount).data.drop HEADER_SIZE =
        (l core.tracker.lastFinalizedAutoClaimMintsStorageAccount).data.drop HEADER_SIZE) :
    (∃ src', Progress env m₁ src' (log ++ [groupMint env ⟨inv, ix, es, l, l'⟩
        core.tracker.lastFinalizedAutoClaimMintsStorageAccount g]) l' core.pendingMintTxos) ∧
      ∀ e ∈ es, MintsOwn env inv e := by
  obtain @⟨bridgeState, buffer, dogeMint, recipients, jit, core₁, claim, hpda, start, claims,
    group⟩ := mints
  obtain ⟨src', entry, hprogress, hstart, hminting⟩ := GroupStart.progress h start claims
  obtain ⟨mem, hmem, hrecords, hown⟩ := groupMinted_records group
  refine ⟨⟨src', ?_⟩, hown⟩
  rw [claimed_account claims] at keeps ⊢
  have hopen := hprogress.current claims.remaining
  have hbuffer : buffer.key = (src' (blockHeight core₁.pendingMintTxos
      core₁.pendingMintTxos.pendingFinalizedInfoCurrentIndex.toNat)).buffer :=
    claims.buffer.trans hopen.buffer
  have hapart : buffer.key ≠ BridgeEnv.pda env := by
    rw [hbuffer]
    exact hopen.apart
  have hheight : (groupMint env ⟨inv, ix, es, l, l'⟩ buffer.key g).height =
      blockHeight core₁.pendingMintTxos
        core₁.pendingMintTxos.pendingFinalizedInfoCurrentIndex.toNat := by
    rw [groupMint, blockHeight, hstart]
    dsimp only
    rw [Holds.backlogIn_eq hs, Minting.index_eq hminting]
  refine hprogress.mint claims hheight rfl ?_ keeps
  rw [hheight]
  obtain ⟨hoffset, hcount⟩ := ClaimsGroup.reads claims hopen.tracking
  have hcontents : (l buffer.key).data.drop HEADER_SIZE =
      (src' (blockHeight core₁.pendingMintTxos
        core₁.pendingMintTxos.pendingFinalizedInfoCurrentIndex.toNat)).mem.drop HEADER_SIZE := by
    rw [hbuffer]
    exact hopen.unchanged
  obtain ⟨-, ⟨e, he, -⟩, -⟩ := hprogress.wellFormed.current claims.remaining
  have hlong := (hopen.mints e he).long
  refine ⟨hbuffer, hcontents, ?_, ClaimsGroup.inGroup claims hopen.tracking, ?_⟩
  · rw [recordArea]
    omega
  rw [install_of_ne hapart, hcontents] at hmem
  change minted es = _
  rw [hrecords, hoffset, hcount]
  refine recordsFrom_congr _ _ hmem ?_
  change 72 ≤ 72 + 32 * _ + 960 * _
  omega

theorem UpdatedOn.progress {fixed : BlockUpdateFixedData} {extra : List FinalizedBlockMintTxoInfo}
    {isReorg : Bool} (h : UpdatedOn env l st fixed extra isReorg buffer core l') :
    core.pendingMintTxos = st.coreState.pendingMintTxos ∨
      ∃ src, Progress env core.pendingMintTxos src [] l' core.pendingMintTxos := by
  obtain @⟨l₁, _, txos, apart, lock, run, unlock⟩ := h
  have hunchanged : (l' buffer).data.drop HEADER_SIZE = (l₁ buffer).data.drop HEADER_SIZE := by
    split at unlock
    · rw [unlock.eq, setData_self, install_of_ne apart]
      exact withHeader_drop _
    · rw [unlock, install_of_ne apart]
  obtain ⟨-, hbacklog⟩ := runTransition_backlog run
  cases hbacklog with
  | kept same _ => exact .inl same
  | @opens height items count opens _ =>
    obtain ⟨entry, rest, hitems, -, hmatches, -⟩ := opens.head
    have hindex : core.pendingMintTxos.pendingFinalizedInfoCurrentIndex.toNat = 0 := by
      rw [opens.eq]
      rfl
    have hpos : 0 < items.length := by
      rw [hitems]
      exact Nat.succ_pos _
    have hfirst : items[0] = entry := by simp [hitems]
    refine .inr ⟨fun _ => ⟨buffer, (l₁ buffer).data, count⟩, Opens.wellFormed opens,
      ⟨rfl, rfl, rfl⟩,
      List.forall_mem_nil _, ?_, ?_, List.forall_mem_nil _, List.Pairwise.nil, List.nodup_nil⟩
    · intro j _ hj
      rw [hindex] at hj
      exact absurd hj (Nat.not_lt_zero j)
    · intro _
      refine ⟨?_, apart, hunchanged, ?_, ?_, ?_⟩
      · rw [Opens.tracker opens]
        rfl
      · rw [Opens.tracker opens]
        exact freshTracker_tracking buffer count
      · intro e he
        rw [hindex, Opens.entry opens hpos, hfirst, Option.some.injEq] at he
        rw [← he]
        exact hmatches
      · intro g
        rw [Opens.tracker opens, freshTracker_free]
        exact ⟨fun hg => absurd hg List.not_mem_nil, fun hg => absurd hg Bool.false_ne_true⟩

def updatesBridge (env : BridgeEnv) (e : Event) : Prop :=
  ∃ call, e = .bridge call ∧ call.on (BridgeEnv.pda env) ∧ updatesBlocks call.ix

/-- The token program is called only to mint the records, each with its amount to its recipient. -/
def mintsOwn (env : BridgeEnv) (e : Event) : Prop :=
  ∀ call, e = .bridge call → call.on (BridgeEnv.pda env) → mintsGroup call.ix ≠ none →
    ∀ effect ∈ call.effects, MintsOwn env call.inv effect

theorem mintLog_still (h : still env e) : mintLog env [e] = [] := by
  rw [mintLog, List.filterMap_cons_none (mintedGroup_still h), List.filterMap_nil]

theorem mintsOwn_still (h : still env e) : mintsOwn env e := by
  intro call he hon hgroup
  refine absurd ?_ (h call he hon)
  cases hix : call.ix with
  | processMintGroup => trivial
  | processMintGroupAutoAdvance => trivial
  | _ =>
    rw [hix] at hgroup
    exact absurd rfl hgroup

theorem Step.progress (hg : Guarded env.platform) (hinit : ¬ isInitialize e)
    (hupdate : ¬ updatesBridge env e) (hs : Holds env l st)
    (h : Progress env m₁ src log l st.coreState.pendingMintTxos) (hstep : Step env l e l')
    (hkeeps : KeepsRecorded env l l') :
    ∃ st' src', Holds env l' st' ∧
      Progress env m₁ src' (log ++ mintLog env [e]) l' st'.coreState.pendingMintTxos ∧
      mintsOwn env e := by
  obtain ⟨st', hs', hbacklog⟩ := Step.backlogStep hg hinit hs hstep
  have hkept := hkeeps st' hs'
  cases hbacklog with
  | kept hstill same =>
    refine ⟨st', src, hs', ?_, mintsOwn_still hstill⟩
    rw [mintLog_still hstill, List.append_nil]
    rw [← same] at h
    exact h.kept hkept
  | blockUpdate on _ _ => exact absurd ⟨_, rfl, on, trivial⟩ hupdate
  | reorg on _ _ => exact absurd ⟨_, rfl, on, trivial⟩ hupdate
  | @mints inv ix effects g core on group mints =>
    obtain ⟨a, rest, ha, hpda⟩ := on
    obtain ⟨-, -, -, haccepted⟩ := hstep.accepted
    obtain ⟨core', hmints, buffer, rest', hrest, haccount⟩ :=
      Accepted.mintsOn hs ha hpda group haccepted
    have hcore : core' = core :=
      congrArg (·.coreState) (Holds.unique (MintsOn.holds hg hmints) hs')
    subst hcore
    obtain ⟨⟨src', hprogress⟩, hown⟩ := MintsOn.progress ix hs h mints hkept
    have hlogged : mintLog env [.bridge ⟨inv, ix, effects, l, l'⟩] =
        [groupMint env ⟨inv, ix, effects, l, l'⟩ buffer.key g] := by
      have haccounts : inv.accounts = a :: buffer :: rest' := by rw [ha, hrest]
      rw [mintLog, List.filterMap_cons_some (b := groupMint env _ buffer.key g), List.filterMap_nil]
      simp only [mintedGroup, haccounts, group, if_pos hpda]
    refine ⟨_, src', hs', ?_, ?_⟩
    · rw [hlogged, ← haccount]
      exact hprogress
    · intro call hcall _ _
      cases hcall
      exact hown

theorem Step.idle (hg : Guarded env.platform) (hinit : ¬ isInitialize e)
    (hupdate : ¬ updatesBridge env e) (hs : Holds env l st)
    (hready : st.coreState.pendingMintTxos.isEmpty = true) (hstep : Step env l e l') :
    ∃ st', Holds env l' st' ∧ st'.coreState.pendingMintTxos.isEmpty = true ∧ mintLog env [e] = [] ∧
      mintsOwn env e := by
  obtain ⟨st', hs', hbacklog⟩ := Step.backlogStep hg hinit hs hstep
  cases hbacklog with
  | kept hstill same =>
    refine ⟨st', hs', ?_, mintLog_still hstill, mintsOwn_still hstill⟩
    rw [same]
    exact hready
  | blockUpdate on _ _ => exact absurd ⟨_, rfl, on, trivial⟩ hupdate
  | reorg on _ _ => exact absurd ⟨_, rfl, on, trivial⟩ hupdate
  | mints _ _ mints =>
    obtain ⟨-, start, claims, -⟩ := mints
    have hbusy : st.coreState.pendingMintTxos.isEmpty = false := by
      cases start with
      | current => exact claims.busy
      | advance _ setup =>
        simp only [runSetupNextPendingBuffer, bind_ok, ensure_ok, exists_const, not_or] at setup
        exact Bool.eq_false_iff.mpr setup.1.2
    rw [hready] at hbusy
    cases hbusy

section Runs

variable {es : List Event} {l₁ l₂ : Ledger}

theorem Run.progress (hg : Guarded env.platform) (hs : Holds env l₁ st)
    (h : Progress env m₁ src [] l₁ st.coreState.pendingMintTxos)
    (once : ∀ e ∈ es, ¬ isInitialize e ∧ ¬ updatesBridge env e)
    (r : Run (fun l e l' => Step env l e l' ∧ KeepsRecorded env l l') l₁ es l₂) :
    ∃ st' src', Holds env l₂ st' ∧
      Progress env m₁ src' (mintLog env es) l₂ st'.coreState.pendingMintTxos ∧
      ∀ e ∈ es, mintsOwn env e := by
  induction r with
  | nil => exact ⟨st, src, hs, h, List.forall_mem_nil _⟩
  | @snoc es e t u _ step ih =>
    obtain ⟨hbefore, hlast⟩ := List.forall_mem_append.mp once
    obtain ⟨hinit, hupdate⟩ := List.forall_mem_singleton.mp hlast
    obtain ⟨st', src', hs', hprogress, hown⟩ := ih hbefore
    obtain ⟨st'', src'', hs'', hprogress', hown'⟩ :=
      Step.progress hg hinit hupdate hs' hprogress step.1 step.2
    rw [← mintLog_append] at hprogress'
    exact ⟨st'', src'', hs'', hprogress', List.forall_mem_append.mpr
      ⟨hown, List.forall_mem_singleton.mpr hown'⟩⟩

theorem Run.idle (hg : Guarded env.platform) (hs : Holds env l₁ st)
    (hready : st.coreState.pendingMintTxos.isEmpty = true)
    (once : ∀ e ∈ es, ¬ isInitialize e ∧ ¬ updatesBridge env e)
    (r : Run (fun l e l' => Step env l e l' ∧ KeepsRecorded env l l') l₁ es l₂) :
    ∃ st', Holds env l₂ st' ∧ st'.coreState.pendingMintTxos.isEmpty = true ∧
      mintLog env es = [] ∧ ∀ e ∈ es, mintsOwn env e := by
  induction r with
  | nil => exact ⟨st, hs, hready, rfl, List.forall_mem_nil _⟩
  | @snoc es e t u _ step ih =>
    obtain ⟨hbefore, hlast⟩ := List.forall_mem_append.mp once
    obtain ⟨hinit, hupdate⟩ := List.forall_mem_singleton.mp hlast
    obtain ⟨st', hs', hready', hlog, hown⟩ := ih hbefore
    obtain ⟨st'', hs'', hready'', hlog', hown'⟩ :=
      Step.idle hg hinit hupdate hs' hready' step.1
    refine ⟨st'', hs'', hready'', ?_, List.forall_mem_append.mpr
      ⟨hown, List.forall_mem_singleton.mpr hown'⟩⟩
    rw [mintLog_append, hlog, hlog', List.append_nil]

end Runs

end Steps

section Minted

/-- No record is minted twice: two groups of one block have no offset in common. -/
theorem Progress.recordKeys_nodup (h : Progress env m₁ src log l m) : (recordKeys log).Nodup := by
  rw [recordKeys, List.nodup_flatMap]
  constructor
  · intro x hx
    rw [(h.read x hx).records]
    refine List.Nodup.of_map Prod.snd ?_
    rw [List.map_map]
    exact groupRecords_offsets _ _ _
  · have honce := List.pairwise_map.mp h.once
    refine List.Pairwise.imp_of_mem ?_ honce
    intro x y hx hy hne k hkx hky
    obtain ⟨r, hr, rfl⟩ := List.mem_map.mp hkx
    obtain ⟨r', hr', heq⟩ := List.mem_map.mp hky
    rw [Prod.mk.injEq] at heq
    rw [(h.read x hx).records] at hr
    rw [(h.read y hy).records, heq.1] at hr'
    obtain ⟨p, hp, hoffset⟩ := mem_groupRecords hr
    obtain ⟨p', hp', hoffset'⟩ := mem_groupRecords hr'
    have hgroup : x.group ≠ y.group := fun hgroup => hne (Prod.ext heq.1.symm hgroup)
    have hoffsets := heq.2
    rw [hoffset, hoffset'] at hoffsets
    unfold groupSize at hp hp'
    omega

variable {entry : FinalizedBlockMintTxoInfo}

theorem Done.records {height : ℕ} (h : Done env entry (src height) (groupsAt log height))
    (hread : ∀ x ∈ log, ReadFrom (src x.height) x) :
    ((ofBlock log height).flatMap GroupMint.records).Perm
      (recordsFrom (src height).mem (recordArea (src height).count.toNat) 0
        (src height).count.toNat) := by
  have hsame : (ofBlock log height).flatMap GroupMint.records =
      (groupsAt log height).flatMap (groupRecords (src height).mem (src height).count.toNat) := by
    rw [groupsAt, List.flatMap_map]
    refine List.flatMap_congr fun x hx => ?_
    obtain ⟨hmem, hheight⟩ := mem_ofBlock.mp hx
    rw [(hread x hmem).records, hheight]
  rw [hsame, ← groupRecords_all]
  exact h.all.flatMap_right _

/-- The record at `offset` lies in the record area of a buffer that holds `contents` behind its
header, for a block with `count` mints. -/
def InRecordArea (count : UInt16) (contents : Bytes) (offset : ℕ) : Prop :=
  recordArea count.toNat ≤ offset ∧ offset + 40 ≤ recordArea count.toNat + 40 * count.toNat ∧
    recordArea count.toNat + 40 * count.toNat ≤ HEADER_SIZE + contents.length

theorem ReadFrom.inside {src : BlockSource} {x : GroupMint} (h : ReadFrom src x)
    {r : ℕ × PendingMint} (hr : r ∈ x.records) : InRecordArea src.count x.contents r.1 := by
  have hlong := h.long
  have hgroup := h.group
  rw [h.records] at hr
  obtain ⟨p, hp, hoffset⟩ := mem_groupRecords hr
  have hheader : HEADER_SIZE = 72 := rfl
  have harea : 72 ≤ recordArea src.count.toNat := Nat.le_add_right 72 _
  unfold groupSize at hp
  refine ⟨?_, ?_, ?_⟩
  · omega
  · omega
  · rw [h.contents, List.length_drop]
    omega

/-- What the mints of a backlog are at any time. -/
structure MintsInOrder (log : List GroupMint) : Prop where
  notTwice : (recordKeys log).Nodup
  ordered : log.Pairwise fun x y => x.height ≤ y.height
  inside : ∃ count : ℕ → UInt16, ∀ x ∈ log, ∀ r ∈ x.records,
    InRecordArea (count x.height) x.contents r.1

/-- All records of the block were minted once, from a buffer that the block commits to. -/
def MintedWhole (env : BridgeEnv) (entry : FinalizedBlockMintTxoInfo) (mints : List GroupMint) :
    Prop :=
  ∃ buffer mem count,
    MintBufferMatches env.crypto (BridgeEnv.pda env) entry.pendingMintsFinalizedHash mem count ∧
    (∀ x ∈ mints, x.buffer = buffer ∧ x.contents = mem.drop HEADER_SIZE) ∧
    (mints.flatMap GroupMint.records).Perm
      (recordsFrom mem (recordArea count.toNat) 0 count.toNat)

theorem Progress.whole {j : ℕ} (h : Progress env m₁ src log l m) (hbusy : m₁.isEmpty = false)
    (hready : m.isEmpty = true) (hj : j < m₁.pendingFinalizedInfoTotalCount.toNat)
    (hentry : m₁.pendingFinalizedInfo[j]? = some entry) (hne : entry.isEmpty = false) :
    MintedWhole env entry (ofBlock log (blockHeight m₁ j)) := by
  have hheight : blockHeight m₁ j = blockHeight m j := by
    rw [blockHeight, blockHeight, h.same.height]
  have hcursor : j < m.pendingFinalizedInfoCurrentIndex.toNat := by
    rcases isEmpty_iff.mp hready with hzero | ⟨htotal, -⟩
    · rw [h.same.total] at hzero
      have hempty := isEmpty_iff.mpr (.inl hzero)
      rw [hbusy] at hempty
      cases hempty
    · rw [← htotal, h.same.total]
      exact hj
  rw [← h.same.info] at hentry
  have hdone := h.done j entry hcursor hentry hne
  rw [← hheight] at hdone
  refine ⟨(src (blockHeight m₁ j)).buffer, _, _, hdone.mints, ?_, Done.records hdone h.read⟩
  intro x hx
  obtain ⟨hmem, hx⟩ := mem_ofBlock.mp hx
  have hread := h.read x hmem
  rw [hx] at hread
  exact ⟨hread.buffer, hread.contents⟩

/-- An update from a ready state either leaves the bridge ready or opens a backlog. -/
theorem Step.opensBacklog {update : BridgeCall} {st : BridgeState}
    (hg : Guarded env.platform) (hs : Holds env l st)
    (hready : st.coreState.pendingMintTxos.isEmpty = true) (hstep : Step env l (.bridge update) l')
    (hon : update.on (BridgeEnv.pda env)) (hupdate : updatesBlocks update.ix) :
    ∃ st', Holds env l' st' ∧ (st'.coreState.pendingMintTxos.isEmpty = true ∨
      ∃ src, Progress env st'.coreState.pendingMintTxos src [] l'
        st'.coreState.pendingMintTxos) := by
  have hinit : ¬ isInitialize (.bridge update) := by
    obtain ⟨_, ix, _, _, _⟩ := update
    cases ix with
    | initializeBridge => exact absurd hupdate id
    | _ => exact id
  obtain ⟨st', hs', hbacklog⟩ := Step.backlogStep hg hinit hs hstep
  have updated {fixed extra isReorg buffer core}
      (h : UpdatedOn env l st fixed extra isReorg buffer core l') :
      core.pendingMintTxos.isEmpty = true ∨
        ∃ src, Progress env core.pendingMintTxos src [] l' core.pendingMintTxos := by
    rcases UpdatedOn.progress h with hsame | hprogress
    · rw [hsame]
      exact .inl hready
    · exact .inr hprogress
  refine ⟨st', hs', ?_⟩
  cases hbacklog with
  | kept hstill _ => exact absurd (movesBacklog_of_updates hupdate) (hstill _ rfl hon)
  | blockUpdate _ _ h => exact updated h
  | reorg _ _ h => exact updated h
  | @mints _ ix _ _ _ _ hgroup _ =>
    cases ix with
    | blockUpdate => cases hgroup
    | processReorgBlocks => cases hgroup
    | _ => exact absurd hupdate id

section Samples

theorem first_claimed_ready
    (hbacklog : core.pendingMintTxos = firstBacklog mintBufferKey 1 depositArea depositTxos) :
    (claimed core).pendingMintTxos.isEmpty = true := by
  change (afterClaim core.pendingMintTxos 0).isEmpty = true
  rw [hbacklog]
  decide +kernel

theorem first_opened_busy
    (hbacklog : core.pendingMintTxos = firstBacklog mintBufferKey 1 depositArea depositTxos) :
    core.isReadyForNewBlockUpdate = false := by
  rw [PsyBridgeProgramState.isReadyForNewBlockUpdate, hbacklog]
  decide +kernel

theorem first_claimed_keeps
    (hbacklog : core.pendingMintTxos = firstBacklog mintBufferKey 1 depositArea depositTxos)
    (hs : Holds cluster l' ⟨claimed core, mintKey⟩) : KeepsRecorded cluster l l' := by
  intro st' hs' hremaining
  rw [Holds.unique hs' hs] at hremaining
  refine absurd ?_ hremaining
  change (afterClaim core.pendingMintTxos
    0).currentPendingMintsTracker.pendingMintsGroupsRemaining = 0
  rw [hbacklog]
  decide +kernel

end Samples

/-- From a ready state through one update, in a run that does not change the buffer that is being
claimed: no record is minted twice, blocks are minted in the order of their heights, every read is
in the record area, and when the bridge is ready again every block with mints was minted whole. -/
theorem backlog_minted_once {update : BridgeCall} {st₀ : BridgeState} {es : List Event}
    {l₀ l₁ l₂ : Ledger} (hg : Guarded env.platform) (before : Holds env l₀ st₀)
    (ready : st₀.coreState.isReadyForNewBlockUpdate = true)
    (start : Step env l₀ (.bridge update) l₁) (on : update.on (BridgeEnv.pda env))
    (updates : updatesBlocks update.ix)
    (r : Run (fun l e l' => Step env l e l' ∧ KeepsRecorded env l l') l₁ es l₂)
    (once : ∀ e ∈ es, ¬ isInitialize e ∧ ¬ updatesBridge env e) :
    ∃ st₁ st₂, Holds env l₁ st₁ ∧ Holds env l₂ st₂ ∧ MintsInOrder (mintLog env es) ∧
      (∀ e ∈ es, mintsOwn env e) ∧
      (st₁.coreState.isReadyForNewBlockUpdate = true → mintLog env es = []) ∧
      (st₁.coreState.isReadyForNewBlockUpdate = false →
        st₂.coreState.isReadyForNewBlockUpdate = true →
        ∀ j entry, j < st₁.coreState.pendingMintTxos.pendingFinalizedInfoTotalCount.toNat →
          st₁.coreState.pendingMintTxos.pendingFinalizedInfo[j]? = some entry →
          entry.isEmpty = false →
          MintedWhole env entry
            (ofBlock (mintLog env es) (blockHeight st₁.coreState.pendingMintTxos j))) := by
  obtain ⟨st₁, hs₁, hready | ⟨src, hopened⟩⟩ := Step.opensBacklog hg before ready start on updates
  · obtain ⟨st₂, hs₂, -, hlog, hown⟩ := Run.idle hg hs₁ hready once r
    rw [hlog]
    refine ⟨st₁, st₂, hs₁, hs₂, ⟨List.nodup_nil, .nil, fun _ => 0, List.forall_mem_nil _⟩, hown,
      fun _ => rfl, ?_⟩
    intro hbusy
    exact absurd hready (Bool.eq_false_iff.mp hbusy)
  · obtain ⟨st₂, src₂, hs₂, hprogress, hown⟩ := Run.progress hg hs₁ hopened once r
    have horder : MintsInOrder _ := ⟨hprogress.recordKeys_nodup, hprogress.ordered,
      fun height => (src₂ height).count, fun x hx _ hr => (hprogress.read x hx).inside hr⟩
    refine ⟨st₁, st₂, hs₁, hs₂, horder, hown, ?_, ?_⟩
    · intro hready
      obtain ⟨-, -, -, hlog, -⟩ := Run.idle hg hs₁ hready once r
      exact hlog
    · intro hbusy hready j entry hj hentry hne
      exact hprogress.whole hbusy hready hj hentry hne

/-- The deposit of the first block is minted whole on the cluster, and the bridge is ready again. -/
theorem first_block_minted :
    ∃ update mint l₁ l₂ l₃ st₁ st₂ entry,
      Step cluster l₁ (.bridge update) l₂ ∧ updatesBlocks update.ix ∧
      Step cluster l₂ (.bridge mint) l₃ ∧ Holds cluster l₂ st₁ ∧ Holds cluster l₃ st₂ ∧
      st₁.coreState.isReadyForNewBlockUpdate = false ∧
      st₂.coreState.isReadyForNewBlockUpdate = true ∧
      st₁.coreState.pendingMintTxos.pendingFinalizedInfo[0]? = some entry ∧
      entry.isEmpty = false ∧ MintsInOrder (mintLog cluster [.bridge mint]) ∧
      MintedWhole cluster entry (ofBlock (mintLog cluster [.bridge mint]) 11) := by
  obtain ⟨l₁, -, hmints, htxos, hmint, hrecipient, -⟩ := uploads_ran
  obtain ⟨es₂, l₂, core, h₂, hs, hbacklog, haccess, hbuffer, hkept⟩ :=
    firstBlock_updated hmints htxos
  have hupdate := step_of_accepted rfl (.blockUpdate h₂)
  obtain ⟨es₃, l₃, hminted, -⟩ := cluster_group_minted (groupInvocation_lists cluster) hbuffer
    ((hkept _ (by decide) (by decide)).trans hmint)
    ((hkept _ (by decide) (by decide)).trans hrecipient)
  have hstep := group_step hs (congrArg _ haccess) hbacklog hminted
  have hs' : Holds cluster l₃ ⟨claimed core, mintKey⟩ :=
    Untouched.holds (groupMinted_untouched cluster_guarded hminted) (install_holds _ _ _)
  obtain ⟨st₁, st₂, hs₁, hs₂, horder, -, -, hwhole⟩ :=
    backlog_minted_once cluster_guarded (install_holds _ _ _) rfl hupdate
      (updateInvocation_on _ _ _ _) trivial
      (.single ⟨hstep, first_claimed_keeps hbacklog hs'⟩)
      (List.forall_mem_singleton.mpr ⟨id, fun ⟨_, hcall, _, hix⟩ => by cases hcall; exact hix⟩)
  have hcore₁ := Holds.unique hs₁ hs
  have hcore₂ := Holds.unique hs₂ hs'
  subst hcore₁ hcore₂
  have hbusy := first_opened_busy hbacklog
  have hready : (claimed core).isReadyForNewBlockUpdate = true := first_claimed_ready hbacklog
  have hfirst : core.pendingMintTxos.pendingFinalizedInfo[0]? =
      some (headerInfo (firstHeader 1 depositArea depositTxos)) := by
    rw [hbacklog]
    rfl
  have hnonempty : (headerInfo (firstHeader 1 depositArea depositTxos)).isEmpty = false := by
    decide +kernel
  have hmintedWhole := hwhole hbusy hready 0 _ (by rw [hbacklog]; decide) hfirst hnonempty
  rw [blockHeight, hbacklog] at hmintedWhole
  exact ⟨_, _, _, l₂, l₃, _, _, _, hupdate, trivial, hstep, hs, hs', hbusy, hready, hfirst,
    hnonempty, horder, hmintedWhole⟩

end Minted

end MintLog
