import PsyDogeBridge.BlockTransition

/-! What an accepted transition of the bridge state checked and what it changed. -/
namespace TransitionFacts

open PodLayout CheckedSteps BridgeData MintGroups ProgramState BlockTransition PendingMintsTracker
  FinalizedBlockMintTxoManager

variable {c : Crypto} {s s' : PsyBridgeProgramState}

theorem computeMintGroupInfo_toNat (n : UInt16) :
    (computeMintGroupInfo n).1.toNat = groupCount n.toNat := by
  have h24 : PM_MAX_PENDING_MINTS_PER_GROUP_U16.toNat = 24 := rfl
  have h1 : (1 : UInt16).toNat = 1 := rfl
  have hlt : n.toNat < 65536 := n.toNat_lt
  have hz : n % PM_MAX_PENDING_MINTS_PER_GROUP_U16 = 0 ↔ n.toNat % 24 = 0 := by
    rw [← UInt16.toNat_inj, UInt16.toNat_mod, h24]
    rfl
  unfold computeMintGroupInfo groupCount
  split
  · next h => subst h; rfl
  · dsimp only
    split
    · next h =>
      have := hz.mp h
      rw [UInt16.toNat_div, h24]
      omega
    · next h =>
      have hne : n.toNat % 24 ≠ 0 := fun k => h (hz.mpr k)
      rw [UInt16.toNat_add, UInt16.toNat_div, h24, h1]
      omega

/-- The mint buffer `mem` is for this bridge, holds `count` mints and has the expected hash. -/
structure MintBufferMatches (c : Crypto) (bridge : Vector UInt8 32) (expected : QHash256)
    (mem : Bytes) (count : UInt16) : Prop where
  long : 72 + groupCount count.toNat * 32 + count.toNat * 40 ≤ mem.length
  locker : (mintBufferHeader mem).authorizedLockerPublicKey = bridge
  count_eq : (mintBufferHeader mem).pendingMintsCount = count
  groups : (mintBufferHeader mem).pendingMintGroupsCount.toNat = groupCount count.toNat
  bound : count.toNat < 65535
  hash : expected = c.sha256 (slice mem 70 (groupCount count.toNat * 32 + 2))

theorem hashPreimageSlice_eq (mem : Bytes) (n : UInt16) :
    hashPreimageSlice mem (computeMintGroupInfo n).1 =
      slice mem 70 (groupCount n.toNat * 32 + 2) := by
  have hn : groupCount n.toNat * 32 + 72 - 70 = groupCount n.toNat * 32 + 2 := by omega
  rw [hashPreimageSlice, computeMintGroupInfo_toNat, hn]

variable {expected : QHash256} {bridge account : Vector UInt8 32}
  {mem mintMem txoMem vk proof : Bytes} {height : UInt32} {m' : FinalizedBlockMintTxoManager}
  {items : List FinalizedBlockMintTxoInfo}

theorem ensurePendingMintsReadyForTransitionInner_ok {h : QHash256} {n : UInt16} :
    ensurePendingMintsReadyForTransitionInner c bridge expected mem = .ok (h, n) ↔
      MintBufferMatches c bridge expected mem n ∧ h = expected := by
  have hb (k : UInt16) : ¬ k ≥ 65535 ↔ k.toNat < 65535 := by
    rw [ge_iff_le, UInt16.le_iff_toNat_le, Nat.not_le]
    rfl
  have hg (k : UInt16) : (mintBufferHeader mem).pendingMintGroupsCount =
      (computeMintGroupInfo k).1 ↔
      (mintBufferHeader mem).pendingMintGroupsCount.toNat = groupCount k.toNat := by
    rw [← UInt16.toNat_inj, computeMintGroupInfo_toNat]
  simp only [ensurePendingMintsReadyForTransitionInner, bind_ok, ensure_ok, exists_const, pure_ok,
    Prod.mk.injEq, not_or, hb, hg, hashPreimageSlice_eq]
  constructor
  · rintro ⟨-, hl, hg, ⟨hn, -⟩, hlen, he, rfl, rfl⟩
    exact ⟨⟨hlen, hl, rfl, hg, hn, he⟩, he.symm⟩
  · rintro ⟨⟨hlen, hl, rfl, hg, hn, he⟩, rfl⟩
    refine ⟨?_, hl, hg, ⟨hn, fun h => h rfl⟩, hlen, he, he.symm, rfl⟩
    exact le_trans (by rw [Nat.add_assoc]; exact Nat.le_add_right 72 _) hlen

theorem hashed_part (h : 72 ≤ mem.length) (n : ℕ) :
    slice mem 70 (n + 2) =
      Pod.u16.encode (mintBufferHeader mem).pendingMintsCount ++ slice mem 72 n := by
  have hheader : PendingMintsBufferStateHeader.pod.encode (mintBufferHeader mem) = slice mem 0 72 :=
    PendingMintsBufferStateHeader.pod.encode_decode _ (slice_length h)
  have hcount : (PendingMintsBufferStateHeader.pod.encode (mintBufferHeader mem)).drop 70 =
      Pod.u16.encode (mintBufferHeader mem).pendingMintsCount := by
    generalize mintBufferHeader mem = header
    have hlast : PendingMintsBufferStateHeader.pod.encode header =
        (hashPod.encode header.authorizedLockerPublicKey ++
          hashPod.encode header.authorizedWriterPublicKey ++ Pod.u8.encode header.isLocked ++
          Pod.u8.encode header.mode ++ Pod.u16.encode header.pendingMintGroupsCount ++
          Pod.u16.encode header.pendingMintsInitialized) ++
        Pod.u16.encode header.pendingMintsCount := by
      simp only [List.append_assoc]
      rfl
    rw [hlast]
    exact List.drop_left' (by simp)
  rw [hheader, drop_slice mem 0 70 2] at hcount
  rw [Nat.add_comm, slice_add, ← hcount]

/-- The output buffer `mem` is for the block at `height` and has the expected hash. -/
structure TxoBufferMatches (c : Crypto) (expected : QHash256) (height : UInt32) (mem : Bytes)
    (count : UInt16) : Prop where
  long : 48 + count.toNat * 4 ≤ mem.length
  height_eq : (txoBufferHeader mem).dogeBlockHeight = height
  hash : c.sha256 (slice mem 48 (count.toNat * 4)) = expected

theorem txoSlice_eq (mem : Bytes) (n : UInt16) : txoSlice mem n = slice mem 48 (n.toNat * 4) := by
  simp [txoSlice, pmTxoDataAccountMinSize]

theorem ensureTxoBufferMatches_ok {n : UInt16} {h : QHash256} {e : DogeBridgeError} :
    ensureTxoBufferMatches c mem n height expected e = .ok h ↔
      TxoBufferMatches c expected height mem n ∧ h = expected := by
  simp only [ensureTxoBufferMatches, bind_ok, ensure_ok, exists_const, pure_ok, txoSlice_eq]
  constructor
  · rintro ⟨hl, hh, he, rfl⟩
    exact ⟨⟨hl, hh, he⟩, he⟩
  · rintro ⟨⟨hl, hh, he⟩, rfl⟩
    exact ⟨hl, hh, he, he⟩

section Accepted

variable (c : Crypto) (s : PsyBridgeProgramState) (m : FinalizedBlockMintTxoManager)
  (proof vk : Bytes) (h : PsyBridgeHeader) (height : UInt32)
  (items : List FinalizedBlockMintTxoInfo) (bridge account : Vector UInt8 32)
  (txoMem mintMem : Bytes) (count : UInt16) (m' : FinalizedBlockMintTxoManager)
  (s' : PsyBridgeProgramState)

/-- Blocks from `height` on go into the backlog, with the mint buffer `account` for the first
of them. -/
structure Opens : Prop where
  ready : m.isEmpty = true
  head : ∃ e rest, items = e :: rest ∧ e.isEmpty = false ∧
    MintBufferMatches c bridge e.pendingMintsFinalizedHash mintMem count ∧
    TxoBufferMatches c e.txoOutputListFinalizedHash height txoMem count
  short : items.length ≤ 8
  eq : m' = m.opened height items account count.toUInt32 (computeMintGroupInfo count).1.toUInt32

def headerInfo : FinalizedBlockMintTxoInfo :=
  ⟨h.finalizedState.pendingMintsFinalizedHash, h.finalizedState.txoOutputListFinalizedHash⟩

def newAutoClaims : UInt32 :=
  h.finalizedState.autoClaimedDepositsNextIndex -
    s.bridgeHeader.finalizedState.autoClaimedDepositsNextIndex

inductive SingleBacklog : Prop where
  | kept (same : newAutoClaims s h = 0)
      (hash : h.finalizedState.pendingMintsFinalizedHash = PM_DA_DEFAULT_PENDING_MINTS_BUFFER_HASH)
      (eq : m' = s.pendingMintTxos)
  | opens (raised : newAutoClaims s h ≠ 0) (data : (txoBufferHeader txoMem).dataSize ≠ 0)
      (opens : Opens c s.pendingMintTxos h.finalizedState.blockHeight [headerInfo h] bridge account
        txoMem mintMem (newAutoClaims s h).toUInt16 m')

structure HeaderAdvances : Prop where
  ready : s.isReadyForNewBlockUpdate = true
  proofSize : proof.length = COMPACT_BRIDGE_ZK_PROOF_SIZE
  keySize : vk.length = COMPACT_BRIDGE_ZK_VERIFIER_KEY_SIZE
  tip : ¬ h.tipState.blockHeight ≤ s.bridgeHeader.tipState.blockHeight
  index : ¬ h.finalizedState.autoClaimedDepositsNextIndex <
    s.bridgeHeader.finalizedState.autoClaimedDepositsNextIndex

structure SingleBlock : Prop where
  header : HeaderAdvances s proof vk h
  height : h.finalizedState.blockHeight = s.bridgeHeader.finalizedState.blockHeight + 1
  few : ¬ newAutoClaims s h > 65535
  proven : c.verifyCompactZkpSlice proof vk (getBlockTransitionPublicInputs c
    (s.bridgeHeader.getHashCanonical c) (h.getHashCanonical c) (s.configParams.getHash c)
    s.custodianWalletConfigHash).toList = true
  update : ∃ m recent, SingleBacklog c s h bridge account txoMem mintMem m ∧
    setRecentFinalizedBlock s h.finalizedState = .ok recent ∧
    s' = { s with
      pendingMintTxos := m
      bridgeHeader := h
      recentFinalizedBlocks := recent
      nextRecentFinalizedBlockIndex := (s.nextRecentFinalizedBlockIndex + 1) % 8 }

def backlogHeight (n first : ℕ) : UInt32 :=
  h.finalizedState.blockHeight - (UInt32.ofNat n - UInt32.ofNat first - 1)

/-- What a reorganisation does to the backlog: blocks without mints at its start are dropped. -/
inductive ReorgBacklog : Prop where
  | kept (empty : ∀ e ∈ items, e.isEmpty = true) (eq : m' = s.pendingMintTxos)
  | opens {first count} (inside : first < items.length)
      (skipped : ∀ e ∈ items.take first, e.isEmpty = true)
      (opens : Opens c s.pendingMintTxos (backlogHeight h items.length first) (items.drop first)
        bridge account txoMem mintMem count m')

structure Reorg : Prop where
  header : HeaderAdvances s proof vk h
  height : ¬ h.finalizedState.blockHeight ≤ s.bridgeHeader.finalizedState.blockHeight
  length : items.length =
    (h.finalizedState.blockHeight - s.bridgeHeader.finalizedState.blockHeight - 1).toNat
  proven : c.verifyCompactZkpSlice proof vk (getReorgBlockTransitionPublicInputs c
    (s.bridgeHeader.getHashCanonical c) (h.getHashCanonical c) items (s.configParams.getHash c)
    s.custodianWalletConfigHash).toList = true
  update : ∃ m, ReorgBacklog c s h (items ++ [headerInfo h]) bridge account txoMem mintMem m ∧
    s' = { s with pendingMintTxos := m, bridgeHeader := h }

end Accepted

structure StandardHash (c : Crypto) : Prop where
  mints : c.sha256 [0, 0] = PM_DA_DEFAULT_PENDING_MINTS_BUFFER_HASH
  txos : c.sha256 [] = PM_TXO_DEFAULT_BUFFER_HASH

theorem count_ne_zero {e : FinalizedBlockMintTxoInfo} {count : UInt16} (hc : StandardHash c)
    (he : e.isEmpty = false)
    (hm : MintBufferMatches c bridge e.pendingMintsFinalizedHash mintMem count)
    (ht : TxoBufferMatches c e.txoOutputListFinalizedHash height txoMem count) : count ≠ 0 := by
  intro h0
  have hzero : count.toNat = 0 := by
    rw [h0]
    rfl
  have hlong : 72 ≤ mintMem.length := by
    have := hm.long
    omega
  have hmints : e.pendingMintsFinalizedHash = PM_DA_DEFAULT_PENDING_MINTS_BUFFER_HASH := by
    rw [hm.hash, hzero, hashed_part hlong, hm.count_eq, h0, ← hc.mints]
    rfl
  have htxos : e.txoOutputListFinalizedHash = PM_TXO_DEFAULT_BUFFER_HASH := by
    rw [← ht.hash, hzero, ← hc.txos]
    rfl
  have hempty : e.isEmpty = true := by
    rw [FinalizedBlockMintTxoInfo.isEmpty, hmints, htxos]
    simp
  rw [he] at hempty
  cases hempty

theorem toUInt16_eq_zero {n : UInt32} (h : ¬ n > 65535) : n.toUInt16 = 0 ↔ n = 0 := by
  have hn : n.toNat ≤ 65535 := by
    rw [gt_iff_lt, UInt32.lt_iff_toNat_lt, Nat.not_lt] at h
    exact h
  rw [← UInt16.toNat_inj, ← UInt32.toNat_inj, UInt32.toNat_toUInt16,
    Nat.mod_eq_of_lt (by omega)]
  rfl

theorem toUInt32_ne_zero {n : UInt16} (h : n ≠ 0) : n.toUInt32 ≠ 0 := by
  intro h0
  apply h
  rw [← UInt16.toNat_inj, ← UInt16.toNat_toUInt32, h0]
  rfl

theorem ensurePendingMintsReadyForTransition_zero :
    ensurePendingMintsReadyForTransition c 0 bridge expected mem =
      .ok (PM_DA_DEFAULT_PENDING_MINTS_BUFFER_HASH, false) := rfl

theorem ensurePendingMintsReadyForTransition_ok {n : UInt16} {r : QHash256 × Bool} (hn : n ≠ 0) :
    ensurePendingMintsReadyForTransition c n bridge expected mem = .ok r ↔
      MintBufferMatches c bridge expected mem n ∧ r = (expected, true) := by
  have hpos : decide (n > 0) = true := by
    rw [decide_eq_true_eq, gt_iff_lt, UInt16.lt_iff_toNat_lt]
    have h0 : (0 : UInt16).toNat = 0 := rfl
    have : n.toNat ≠ 0 := fun k => hn (UInt16.toNat_inj.mp (k.trans h0.symm))
    omega
  simp only [ensurePendingMintsReadyForTransition, if_neg hn, bind_ok, ensure_ok, exists_const,
    pure_ok, Prod.exists, ensurePendingMintsReadyForTransitionInner_ok, hpos]
  constructor
  · rintro ⟨h, k, ⟨hm, rfl⟩, rfl, rfl⟩
    exact ⟨hm, rfl⟩
  · rintro ⟨hm, rfl⟩
    exact ⟨_, _, ⟨hm, rfl⟩, rfl, rfl⟩

theorem appendNewAutoMints_ok {h : PsyBridgeHeader} {n : UInt16} (hn : n ≠ 0)
    (hm : MintBufferMatches c bridge h.finalizedState.pendingMintsFinalizedHash mintMem n) :
    appendNewAutoMints c s h h.finalizedState.pendingMintsFinalizedHash true n account txoMem =
        .ok m' ↔
      (txoBufferHeader txoMem).dataSize ≠ 0 ∧
      Opens c s.pendingMintTxos h.finalizedState.blockHeight [headerInfo h] bridge account txoMem
        mintMem n m' := by
  simp only [appendNewAutoMints, if_true, bind_ok, ensure_ok, exists_const, not_or, not_not,
    txoSlice_eq]
  constructor
  · rintro ⟨hl, ⟨hh, hd⟩, ht, ha⟩
    rw [ht] at ha
    cases he : (headerInfo h).isEmpty with
    | true => exact absurd ha (standardAppendBlock_single_empty he (toUInt32_ne_zero hn))
    | false =>
      obtain ⟨hr, hs, hm'⟩ := (standardAppendBlock_cons (e := headerInfo h) he).mp ha
      exact ⟨hd, hr, ⟨_, _, rfl, he, hm, ⟨hl, hh, ht⟩⟩, hs, hm'⟩
  · rintro ⟨hd, hr, ⟨e, rest, hi, he, -, hl, hh, ht⟩, hs, hm'⟩
    cases hi
    refine ⟨hl, ⟨hh, hd⟩, ht, ?_⟩
    rw [ht]
    exact (standardAppendBlock_cons (e := headerInfo h) he).mpr ⟨hr, hs, hm'⟩

theorem runStandardSingleBlockTransition_ok {h : PsyBridgeHeader} :
    runStandardSingleBlockTransition c s proof vk h bridge account txoMem mintMem = .ok s' ↔
      SingleBlock c s proof vk h bridge account txoMem mintMem s' := by
  simp only [runStandardSingleBlockTransition, bind_ok, ensure_ok, exists_const, pure_ok,
    Prod.exists]
  constructor
  · rintro ⟨hr, hp, hv, hh, ht, hi, hf, hz, ph, b, he, hph, m, ha, recent, hs, rfl⟩
    refine ⟨⟨hr, hp, hv, ht, hi⟩, hh, hf, hz, m, recent, ?_, hs, rfl⟩
    by_cases h0 : (newAutoClaims s h).toUInt16 = 0
    · rw [show (h.finalizedState.autoClaimedDepositsNextIndex - _).toUInt16 = 0 from h0,
        ensurePendingMintsReadyForTransition_zero] at he
      cases he
      cases ha
      exact .kept ((toUInt16_eq_zero hf).mp h0) hph.symm rfl
    · obtain ⟨hm, hb⟩ := (ensurePendingMintsReadyForTransition_ok h0).mp he
      cases hb
      obtain ⟨hd, ho⟩ := (appendNewAutoMints_ok h0 hm).mp ha
      exact .opens (fun k => h0 ((toUInt16_eq_zero hf).mpr k)) hd ho
  · rintro ⟨⟨hr, hp, hv, ht, hi⟩, hh, hf, hz, m, recent, hb, hs, rfl⟩
    cases hb with
    | kept h0 hph hm =>
      refine ⟨hr, hp, hv, hh, ht, hi, hf, hz, _, false, ?_, hph.symm, m, ?_, recent, hs, rfl⟩
      · rw [show (h.finalizedState.autoClaimedDepositsNextIndex - _).toUInt16 = 0 from
          (toUInt16_eq_zero hf).mpr h0, ensurePendingMintsReadyForTransition_zero]
      · rw [hm]
        rfl
    | opens h0 hd ho =>
      have hne : (newAutoClaims s h).toUInt16 ≠ 0 := fun k => h0 ((toUInt16_eq_zero hf).mp k)
      obtain ⟨e, rest, hl, -, hm, -⟩ := ho.head
      cases hl
      exact ⟨hr, hp, hv, hh, ht, hi, hf, hz, _, _,
        (ensurePendingMintsReadyForTransition_ok hne).mpr ⟨hm, rfl⟩, rfl, m,
        (appendNewAutoMints_ok hne hm).mpr ⟨hd, ho⟩, recent, hs, rfl⟩

theorem getBacklogContainsPendingMints_none :
    getBacklogContainsPendingMints items = none ↔ ∀ e ∈ items, e.isEmpty = true := by
  simp [getBacklogContainsPendingMints, List.findIdx?_eq_none_iff]

theorem getBacklogContainsPendingMints_some {i : ℕ} :
    getBacklogContainsPendingMints items = some i ↔
      ∃ h : i < items.length, (items[i]).isEmpty = false ∧
        ∀ e ∈ items.take i, e.isEmpty = true := by
  simp only [getBacklogContainsPendingMints, List.findIdx?_eq_some_iff_getElem,
    Bool.not_eq_true', Bool.not_eq_false]
  refine exists_congr fun hi => and_congr_right fun _ => ?_
  constructor
  · intro h e he
    obtain ⟨j, hj, rfl⟩ := List.mem_iff_getElem.mp he
    rw [List.length_take] at hj
    simpa using h j (by omega)
  · intro h j hj
    exact h _ (List.mem_iff_getElem.mpr ⟨j, by rw [List.length_take]; omega, by simp⟩)

theorem appendBacklog_ok {h : PsyBridgeHeader} :
    appendBacklog c s h items bridge account txoMem mintMem = .ok m' ↔
      ReorgBacklog c s h items bridge account txoMem mintMem m' := by
  unfold appendBacklog
  split
  · next hg =>
    have he := getBacklogContainsPendingMints_none.mp hg
    rw [pure_ok]
    constructor
    · rintro rfl
      exact .kept he rfl
    · intro hb
      cases hb with
      | kept _ hm => exact hm.symm
      | opens hi _ ho =>
        obtain ⟨e, rest, hl, hf, -⟩ := ho.head
        have hmem : e ∈ items := List.mem_of_mem_drop (hl ▸ List.mem_cons_self)
        rw [he e hmem] at hf
        cases hf
  · next first hg =>
    obtain ⟨hi, hf, hs⟩ := getBacklogContainsPendingMints_some.mp hg
    have hd : items.drop first = items[first] :: items.drop (first + 1) :=
      List.drop_eq_getElem_cons hi
    have hget : items.getD first .default = items[first] := by simp [hi]
    simp only [hget, bind_ok, ensure_ok, exists_const, Prod.exists, ensureTxoBufferMatches_ok,
      ensurePendingMintsReadyForTransitionInner_ok]
    rw [hd]
    constructor
    · rintro ⟨ph, n, ⟨hm, rfl⟩, -, th, ⟨ht, rfl⟩, ha⟩
      obtain ⟨hr, hl, rfl⟩ := (standardAppendBlock_cons hf).mp ha
      exact .opens hi hs ⟨hr, ⟨_, _, hd, hf, hm, ht⟩, by rwa [hd], by rw [hd]; rfl⟩
    · intro hb
      cases hb with
      | kept he _ =>
        rw [he _ (List.getElem_mem hi)] at hf
        cases hf
      | @opens k n hk hsk ho =>
        obtain ⟨e, rest, hl, hef, hm, ht⟩ := ho.head
        have hki : k = first := by
          have hsome : getBacklogContainsPendingMints items = some k := by
            refine getBacklogContainsPendingMints_some.mpr ⟨hk, ?_, hsk⟩
            rw [List.drop_eq_getElem_cons hk] at hl
            cases hl
            exact hef
          rw [hg] at hsome
          exact (Option.some.inj hsome).symm
        subst hki
        have hshort := ho.short
        have heq := ho.eq
        rw [hd] at hl hshort heq
        cases hl
        exact ⟨_, n, ⟨hm, rfl⟩, rfl, _, ⟨ht, rfl⟩, (standardAppendBlock_cons hf).mpr
          ⟨ho.ready, hshort, heq⟩⟩

theorem runBlockTransitionReorg_ok {h : PsyBridgeHeader} {extra : List FinalizedBlockMintTxoInfo} :
    runBlockTransitionReorg c s proof vk h extra bridge account txoMem mintMem = .ok s' ↔
      Reorg c s proof vk h extra bridge account txoMem mintMem s' := by
  simp only [runBlockTransitionReorg, bind_ok, ensure_ok, exists_const, pure_ok, appendBacklog_ok]
  constructor
  · rintro ⟨hr, hp, hv, hh, ht, hl, -, hi, hz, m, hb, rfl⟩
    exact ⟨⟨hr, hp, hv, ht, hi⟩, hh, hl, hz, m, hb, rfl⟩
  · rintro ⟨⟨hr, hp, hv, ht, hi⟩, hh, hl, hz, m, hb, rfl⟩
    refine ⟨hr, hp, hv, hh, ht, hl, ?_, hi, hz, m, hb, rfl⟩
    rw [hl, UInt32.ofNat_toNat]

section MintGroups

variable {m : FinalizedBlockMintTxoManager}

def afterClaim (m : FinalizedBlockMintTxoManager) (g : ℕ) : FinalizedBlockMintTxoManager :=
  { m with
    currentPendingMintsTracker := m.currentPendingMintsTracker.claim g
    pendingFinalizedInfoCurrentIndex :=
      if (m.currentPendingMintsTracker.claim g).isEmpty ∧
          m.pendingFinalizedInfoCurrentIndex < m.pendingFinalizedInfoTotalCount then
        m.pendingFinalizedInfoCurrentIndex + 1
      else m.pendingFinalizedInfoCurrentIndex }

structure ClaimsGroup (s : PsyBridgeProgramState) (g : UInt16) (account : Vector UInt8 32)
    (s' : PsyBridgeProgramState) (claim : GroupClaim) : Prop where
  busy : s.pendingMintTxos.isEmpty = false
  total : s.tracker.totalPendingMints ≠ 0
  remaining : s.tracker.pendingMintsGroupsRemaining ≠ 0
  bitmap : g.toNat < 256
  inside : g < s.tracker.getCurrentTotalPendingMintsGroups
  fresh : s.tracker.isClaimed g.toNat = false
  buffer : account = s.tracker.lastFinalizedAutoClaimMintsStorageAccount
  state : s' = { s with pendingMintTxos := afterClaim s.pendingMintTxos g.toNat }
  claim : claim = ⟨(s.tracker.claim g.toNat).isEmpty, mintsCountForGroup s.tracker g,
    getNthPendingMintOffset s.tracker.getCurrentTotalPendingMintsGroups
      (g * PM_MAX_PENDING_MINTS_PER_GROUP_U16)⟩

variable {account : Vector UInt8 32} {j : UInt16}

theorem runAutoMintGroupPrecheck_ok {g : UInt16} {claim : GroupClaim} :
    runAutoMintGroupPrecheck s g account = .ok (s', claim) ↔ ClaimsGroup s g account s' claim := by
  have hrem : ∀ t : PendingMintsTracker, ¬ t.isEmpty = true ↔
      t.pendingMintsGroupsRemaining ≠ 0 := by
    intro t
    simp [PendingMintsTracker.isEmpty]
  simp only [runAutoMintGroupPrecheck, bind_ok, ensure_ok, exists_const, pure_ok, Prod.exists,
    Prod.mk.injEq, ensureCanClaimPendingMintsGroup_ok, hrem, Bool.not_eq_true,
    FinalizedBlockMintTxoManager.markPendingMintsGroupClaimed_ok,
    PendingMintsTracker.markPendingMintsGroupClaimed_ok]
  constructor
  · rintro ⟨he, -, hr, ⟨ht, -, hg, hi, hf⟩, hb, m', u, ⟨t, ⟨-, -, -, -, rfl, rfl⟩, rfl⟩, rfl, rfl⟩
    exact ⟨he, ht, hr, hg, hi, hf, hb, rfl, rfl⟩
  · rintro ⟨he, ht, hr, hg, hi, hf, hb, rfl, rfl⟩
    have h0 : s.tracker.getCurrentTotalPendingMintsGroups ≠ 0 := by
      intro h
      rw [h] at hi
      exact absurd (UInt16.lt_iff_toNat_lt.mp hi) (Nat.not_lt_zero _)
    exact ⟨he, h0, hr, ⟨ht, hr, hg, hi, hf⟩, hb, _, _, ⟨_, ⟨ht, hr, hg, hf, rfl, rfl⟩, rfl⟩,
      rfl, rfl⟩

def started (m : FinalizedBlockMintTxoManager) (j : UInt16) (account : Vector UInt8 32)
    (total groups : UInt32) : FinalizedBlockMintTxoManager :=
  { m with
    pendingFinalizedInfoCurrentIndex := j
    currentPendingMintsTracker := ⟨account, zeroBytes, total, groups⟩ }

def freshTracker (account : Vector UInt8 32) (count : UInt16) : PendingMintsTracker :=
  ⟨account, zeroBytes, count.toUInt32, (computeMintGroupInfo count).1.toUInt32⟩

theorem freshTracker_groups (account : Vector UInt8 32) (n : UInt16) :
    (freshTracker account n).getCurrentTotalPendingMintsGroups.toNat = groupCount n.toNat := by
  have hn : n.toUInt32.toNat % 65536 = n.toNat := by
    rw [UInt16.toNat_toUInt32]
    exact Nat.mod_eq_of_lt n.toNat_lt
  rw [getCurrentTotalPendingMintsGroups_toNat]
  exact congrArg groupCount hn

theorem freshTracker_remaining (account : Vector UInt8 32) (n : UInt16) :
    (freshTracker account n).pendingMintsGroupsRemaining.toNat = groupCount n.toNat := by
  rw [freshTracker, UInt16.toNat_toUInt32, computeMintGroupInfo_toNat]

theorem freshTracker_free (account : Vector UInt8 32) (n : UInt16) (g : ℕ) :
    (freshTracker account n).isClaimed g = false := by
  unfold PendingMintsTracker.isClaimed
  split
  · exact ByteBitmap.getBit_zero _
  · rfl

structure NextBlock (c : Crypto) (m : FinalizedBlockMintTxoManager) (bridge : Vector UInt8 32)
    (txoMem mintMem : Bytes) (j : UInt16) (e : FinalizedBlockMintTxoInfo) (count : UInt16) :
    Prop where
  busy : m.isEmpty = false
  idle : m.currentPendingMintsTracker.isEmpty = true
  after : m.pendingFinalizedInfoCurrentIndex.toNat ≤ j.toNat
  inside : j.toNat < m.pendingFinalizedInfoTotalCount.toNat
  skipped : ∀ k e, m.pendingFinalizedInfoCurrentIndex.toNat ≤ k → k < j.toNat →
    m.pendingFinalizedInfo[k]? = some e → e.isEmpty = true
  entry : m.pendingFinalizedInfo[j.toNat]? = some e
  nonempty : e.isEmpty = false
  mints : MintBufferMatches c bridge e.pendingMintsFinalizedHash mintMem count
  txos : TxoBufferMatches c e.txoOutputListFinalizedHash (m.startBlockHeight + j.toUInt32) txoMem
    count

theorem skippedTo_isEmpty (hm : m.isEmpty = false)
    (ht : m.currentPendingMintsTracker.isEmpty = true) :
    (m.skippedTo j).isEmpty = true ↔ j = m.pendingFinalizedInfoTotalCount := by
  have h0 : m.pendingFinalizedInfoTotalCount ≠ 0 := by
    intro h
    have := isEmpty_iff.mpr (.inl h)
    rw [hm] at this
    cases this
  unfold skippedTo
  split
  · next hj =>
    rw [FinalizedBlockMintTxoManager.isEmpty_iff, hj]
    simp [h0, ht, eq_comm]
  · rw [FinalizedBlockMintTxoManager.isEmpty_iff]
    simp [h0, PendingMintsTracker.default, PendingMintsTracker.isEmpty, eq_comm]

theorem skippedTo_tracker_isEmpty (ht : m.currentPendingMintsTracker.isEmpty = true) :
    (m.skippedTo j).currentPendingMintsTracker.isEmpty = true := by
  unfold skippedTo
  split
  · exact ht
  · rfl

@[simp] theorem skippedTo_info (j : UInt16) :
    (m.skippedTo j).pendingFinalizedInfo = m.pendingFinalizedInfo := by
  unfold skippedTo
  split <;> rfl

@[simp] theorem skippedTo_index (j : UInt16) :
    (m.skippedTo j).pendingFinalizedInfoCurrentIndex = j := by
  unfold skippedTo
  split
  · next h => exact h.symm
  · rfl

@[simp] theorem skippedTo_total (j : UInt16) :
    (m.skippedTo j).pendingFinalizedInfoTotalCount = m.pendingFinalizedInfoTotalCount := by
  unfold skippedTo
  split <;> rfl

@[simp] theorem skippedTo_height (j : UInt16) :
    (m.skippedTo j).startBlockHeight = m.startBlockHeight := by
  unfold skippedTo
  split <;> rfl

theorem skippedTo_started (j : UInt16) (account : Vector UInt8 32) (total groups : UInt32) :
    { m.skippedTo j with currentPendingMintsTracker := ⟨account, zeroBytes, total, groups⟩ } =
      started m j account total groups := by
  simp [started]

theorem runSetupNextPendingBuffer_ok
    (h8 : s.pendingMintTxos.pendingFinalizedInfoTotalCount.toNat ≤ 8) :
    runSetupNextPendingBuffer c s bridge account txoMem mintMem = .ok s' ↔
      ∃ j e count, NextBlock c s.pendingMintTxos bridge txoMem mintMem j e count ∧
        s' = { s with
          pendingMintTxos := started s.pendingMintTxos j account count.toUInt32
            (computeMintGroupInfo count).1.toUInt32 } := by
  have hready : s.isReadyForNewBlockUpdate = s.pendingMintTxos.isEmpty := rfl
  simp only [runSetupNextPendingBuffer, ensureReadyToStartNextPendingFinalizedInfo, bind_ok,
    ensure_ok, exists_const, pure_ok, Prod.exists, orFail_ok, hready, or_self, Bool.not_eq_true,
    ensurePendingMintsReadyForTransitionInner_ok, ensureTxoBufferMatches_ok]
  constructor
  · rintro ⟨hb, ht, ⟨-, hc⟩, m, hf, hne, -, ⟨-, hlt⟩, e, he, ph, n, ⟨hm, rfl⟩, th,
      ⟨htx, rfl⟩, -, rfl⟩
    have hc := UInt16.lt_iff_toNat_lt.mp hc
    obtain ⟨j, hj₀, hj₁, hs, hn, rfl⟩ := (fastForwardEmpty_ok hc h8 ht).mp hf
    simp only [skippedTo_index, skippedTo_total, skippedTo_info, skippedTo_height] at hlt he htx
    have hlt := UInt16.lt_iff_toNat_lt.mp hlt
    obtain ⟨e', he', hfe⟩ := hn hlt
    rw [he'] at he
    cases he
    exact ⟨j, e, n, ⟨hb, ht, hj₀, hlt, hs, he', hfe, hm, htx⟩, by rw [skippedTo_started]⟩
  · rintro ⟨j, e, n, ⟨hb, ht, hj₀, hlt, hs, he, hfe, hm, htx⟩, rfl⟩
    have hc : s.pendingMintTxos.pendingFinalizedInfoCurrentIndex.toNat <
        s.pendingMintTxos.pendingFinalizedInfoTotalCount.toNat := Nat.lt_of_le_of_lt hj₀ hlt
    have hne : ¬ (s.pendingMintTxos.skippedTo j).isEmpty = true := by
      rw [skippedTo_isEmpty hb ht]
      rintro rfl
      exact Nat.lt_irrefl _ hlt
    have hte := skippedTo_tracker_isEmpty (j := j) ht
    refine ⟨hb, ht, ⟨ht, UInt16.lt_iff_toNat_lt.mpr hc⟩, _, (fastForwardEmpty_ok hc h8 ht).mpr
      ⟨j, hj₀, Nat.le_of_lt hlt, hs, fun _ => ⟨e, he, hfe⟩, rfl⟩, by simpa using hne, hte,
      ⟨hte, ?_⟩, e, ?_, _, n, ⟨hm, rfl⟩, _, ⟨?_, rfl⟩, rfl, ?_⟩
    · simpa using UInt16.lt_iff_toNat_lt.mpr hlt
    · simpa using he
    · simpa using htx
    · rw [skippedTo_started]

end MintGroups

end TransitionFacts
