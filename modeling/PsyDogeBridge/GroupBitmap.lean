import PsyDogeBridge.LocalCluster

/-! Claiming the groups of one accepted mint buffer in any order. -/
namespace GroupBitmap

open PodLayout CheckedSteps BridgeData MintGroups PendingMintsTracker ProgramState BlockTransition
  TransitionFacts LocalCluster

variable {c : Crypto} {s s' : PsyBridgeProgramState} {t t' : PendingMintsTracker}

def claimAll (t : PendingMintsTracker) : List UInt16 → QDogeResult PendingMintsTracker
  | [] => .ok t
  | g :: gs => do
    t.ensureCanClaimPendingMintsGroup g
    let (t, _) ← t.markPendingMintsGroupClaimed g
    claimAll t gs

theorem claimAll_cons {g : UInt16} {gs : List UInt16} :
    claimAll t (g :: gs) = .ok t' ↔
      t.totalPendingMints ≠ 0 ∧ t.pendingMintsGroupsRemaining ≠ 0 ∧ g.toNat < 256 ∧
      g < t.getCurrentTotalPendingMintsGroups ∧ t.isClaimed g.toNat = false ∧
      claimAll (t.claim g.toNat) gs = .ok t' := by
  simp only [claimAll, bind_ok, Prod.exists, exists_const, ensureCanClaimPendingMintsGroup_ok,
    markPendingMintsGroupClaimed_ok]
  constructor
  · rintro ⟨⟨ht, hr, hg, hi, hf⟩, t₁, b, ⟨-, -, -, -, rfl, -⟩, h⟩
    exact ⟨ht, hr, hg, hi, hf, h⟩
  · rintro ⟨ht, hr, hg, hi, hf, h⟩
    exact ⟨⟨ht, hr, hg, hi, hf⟩, _, _, ⟨ht, hr, hg, hf, rfl, rfl⟩, h⟩

theorem claimAll_bitmap {order : List UInt16} (h : claimAll t order = .ok t') :
    ∀ g ∈ order, g.toNat < 256 := by
  induction order generalizing t with
  | nil => exact fun g hg => absurd hg List.not_mem_nil
  | cons g gs ih =>
    obtain ⟨-, -, hg, -, -, hrest⟩ := claimAll_cons.mp h
    intro k hk
    rcases List.mem_cons.mp hk with rfl | hk
    · exact hg
    · exact ih hrest k hk

theorem claimAll_empties {order : List UInt16} (hnodup : order.Nodup)
    (hbitmap : ∀ g ∈ order, g.toNat < 256)
    (hinside : ∀ g ∈ order, g < t.getCurrentTotalPendingMintsGroups)
    (hfree : ∀ g ∈ order, t.isClaimed g.toNat = false)
    (hcount : t.pendingMintsGroupsRemaining.toNat = order.length) :
    ∃ t', claimAll t order = .ok t' ∧ t'.isEmpty = true := by
  induction order generalizing t with
  | nil =>
    refine ⟨t, rfl, ?_⟩
    rw [PendingMintsTracker.isEmpty, beq_iff_eq, ← UInt32.toNat_inj]
    exact hcount
  | cons g gs ih =>
    obtain ⟨hnotin, hnodup⟩ := List.nodup_cons.mp hnodup
    have hg := hbitmap g List.mem_cons_self
    have hin := hinside g List.mem_cons_self
    have hpos : 0 < t.pendingMintsGroupsRemaining.toNat := by
      rw [hcount]
      exact Nat.succ_pos _
    have hremaining : t.pendingMintsGroupsRemaining ≠ 0 := by
      intro h
      rw [h] at hpos
      exact Nat.lt_irrefl _ hpos
    have htotal : t.totalPendingMints ≠ 0 := by
      intro h
      have hz := getCurrentTotalPendingMintsGroups_toNat t
      rw [h] at hz
      rw [UInt16.lt_iff_toNat_lt, hz] at hin
      exact absurd hin (Nat.not_lt_zero _)
    have hless : (t.claim g.toNat).pendingMintsGroupsRemaining.toNat = gs.length := by
      have := claim_remaining_toNat (g := g.toNat) hremaining
      rw [hcount, List.length_cons] at this
      exact Nat.succ.inj this
    have hfree' : ∀ k ∈ gs, (t.claim g.toNat).isClaimed k.toNat = false := by
      intro k hk
      have hne : g.toNat ≠ k.toNat := by
        intro h
        exact hnotin (UInt16.toNat_inj.mp h ▸ hk)
      rw [claim_isClaimed hg, hfree k (List.mem_cons_of_mem _ hk), decide_eq_false hne]
      rfl
    obtain ⟨t', ht', he⟩ := ih (t := t.claim g.toNat) hnodup
      (fun k hk => hbitmap k (List.mem_cons_of_mem _ hk))
      (fun k hk => hinside k (List.mem_cons_of_mem _ hk)) hfree' hless
    exact ⟨t', claimAll_cons.mpr ⟨htotal, hremaining, hg, hin, hfree g List.mem_cons_self, ht'⟩, he⟩

/-- The three ways in which a mint buffer is accepted: by a single block with new deposits, by a
reorganisation with a block that is not empty, and as the next buffer of the backlog. -/
inductive BufferAccepted (c : Crypto) (s : PsyBridgeProgramState) (mintMem : Bytes)
    (s' : PsyBridgeProgramState) : Prop where
  | single {proof vk h bridge account txoMem}
      (run : runStandardSingleBlockTransition c s proof vk h bridge account txoMem mintMem = .ok s')
      (mints : newAutoClaims s h ≠ 0)
  | reorg {proof vk h extra bridge account txoMem}
      (run : runBlockTransitionReorg c s proof vk h extra bridge account txoMem mintMem = .ok s')
      (mints : ∃ e ∈ extra ++ [headerInfo h], e.isEmpty = false)
  | setup {bridge account txoMem}
      (run : runSetupNextPendingBuffer c s bridge account txoMem mintMem = .ok s')

theorem BufferAccepted.tracker {mintMem : Bytes} (h : BufferAccepted c s mintMem s') :
    ∃ account, s'.tracker =
      freshTracker account (mintBufferHeader mintMem).pendingMintsCount := by
  have opened {m m' height items bridge account txoMem count}
      (ho : Opens c m height items bridge account txoMem mintMem count m') :
      m'.currentPendingMintsTracker =
        freshTracker account (mintBufferHeader mintMem).pendingMintsCount := by
    obtain ⟨e, rest, -, -, hm, -⟩ := ho.head
    rw [ho.eq, hm.count_eq]
    rfl
  cases h with
  | single run mints =>
    obtain ⟨m, _, hb, -, rfl⟩ := (runStandardSingleBlockTransition_ok.mp run).update
    cases hb with
    | kept same => exact absurd same mints
    | opens _ _ ho => exact ⟨_, opened ho⟩
  | reorg run mints =>
    obtain ⟨m, hb, rfl⟩ := (runBlockTransitionReorg_ok.mp run).update
    cases hb with
    | kept empty =>
      obtain ⟨e, he, hf⟩ := mints
      rw [empty e he] at hf
      cases hf
    | opens _ _ ho => exact ⟨_, opened ho⟩
  | setup run =>
    simp only [runSetupNextPendingBuffer, bind_ok, ensure_ok, pure_ok, Prod.exists,
      ensurePendingMintsReadyForTransitionInner_ok] at run
    obtain ⟨-, -, -, -, -, -, m, -, -, -, -, -, -, -, e, -, _, _, ⟨hm, -⟩, _, -, -, -, rfl⟩ := run
    rw [hm.count_eq]
    exact ⟨_, rfl⟩

theorem groupCount_le_iff {n : ℕ} : groupCount n ≤ 256 ↔ n ≤ 6144 := by
  unfold groupCount
  omega

/-- All groups of an accepted buffer can be claimed in every order exactly if there are at most
6144 mints: the bitmap has 256 bits, and the next group is refused by no check. -/
theorem every_order_claims_iff {mintMem : Bytes} (h : BufferAccepted c s mintMem s') :
    (∀ order : List UInt16, (order.map UInt16.toNat).Perm
        (List.range (groupCount (mintBufferHeader mintMem).pendingMintsCount.toNat)) →
      ∃ t, claimAll s'.tracker order = .ok t ∧ t.isEmpty = true) ↔
    (mintBufferHeader mintMem).pendingMintsCount.toNat ≤ 6144 := by
  obtain ⟨account, ht⟩ := h.tracker
  generalize (mintBufferHeader mintMem).pendingMintsCount = n at ht ⊢
  rw [ht, ← groupCount_le_iff]
  constructor
  · intro hall
    have hround : ((List.range (groupCount n.toNat)).map UInt16.ofNat).map UInt16.toNat =
        List.range (groupCount n.toNat) := by
      have hn : n.toNat < 65536 := n.toNat_lt
      rw [List.map_map]
      refine (List.map_congr_left fun i hi => ?_).trans (List.map_id _)
      have hi := List.mem_range.mp hi
      unfold groupCount at hi
      exact UInt16.toNat_ofNat_of_lt' (by simp [UInt16.size]; omega)
    obtain ⟨t, hok, -⟩ := hall _ (List.Perm.of_eq hround)
    by_contra hbig
    have hmem : UInt16.ofNat 256 ∈ (List.range (groupCount n.toNat)).map UInt16.ofNat :=
      List.mem_map_of_mem (List.mem_range.mpr (Nat.lt_of_not_le hbig))
    exact absurd (claimAll_bitmap hok _ hmem) (by decide)
  · intro hsmall order hperm
    have hlt : ∀ g ∈ order, g.toNat < groupCount n.toNat := by
      intro g hg
      exact List.mem_range.mp (hperm.subset (List.mem_map_of_mem hg))
    refine claimAll_empties ?_ ?_ ?_ ?_ ?_
    · exact List.Nodup.of_map _ (hperm.nodup_iff.mpr List.nodup_range)
    · exact fun g hg => Nat.lt_of_lt_of_le (hlt g hg) hsmall
    · intro g hg
      rw [UInt16.lt_iff_toNat_lt, freshTracker_groups]
      exact hlt g hg
    · exact fun g _ => freshTracker_free account n g.toNat
    · have hlen := hperm.length_eq
      rw [List.length_map, List.length_range] at hlen
      rw [freshTracker_remaining, hlen]

def zeroArea (count : UInt16) : Bytes :=
  List.replicate (groupCount count.toNat * 32 + count.toNat * 40) 0

def zeroTxos (count : UInt16) : Bytes := List.replicate (count.toNat * 4) 0

theorem mintPreimage_zeroArea (count : UInt16) : mintPreimage count (zeroArea count) =
    Pod.u16.encode count ++ List.replicate (groupCount count.toNat * 32) 0 := by
  have hmin : min (groupCount count.toNat * 32) (groupCount count.toNat * 32 + count.toNat * 40) =
      groupCount count.toNat * 32 := Nat.min_eq_left (Nat.le_add_right _ _)
  rw [mintPreimage, zeroArea, List.take_replicate, hmin]

theorem zeros_accepted {count : UInt16} (hcount : count ≠ 0) (hc : count.toNat < 65535)
    (hne : crypto.sha256 (Pod.u16.encode count ++ List.replicate (groupCount count.toNat * 32) 0) ≠
      PM_DA_DEFAULT_PENDING_MINTS_BUFFER_HASH) :
    ∃ s', BufferAccepted crypto (genesisState operatorKey 10).coreState
      (mintBuffer count (zeroArea count)) s' := by
  have hlen : (zeroTxos count).length = count.toNat * 4 := List.length_replicate
  rw [← mintPreimage_zeroArea] at hne
  obtain ⟨s', hs', -⟩ := firstHeader_accepted operatorKey (Vector.replicate 256 0)
    (Vector.replicate 32 0) hcount hc List.length_replicate (txoBuffer_dataSize 11 _)
    (txoBuffer_matches 11 hlen) hne
  refine ⟨s', .single hs' ?_⟩
  rw [firstHeader_newAutoClaims]
  exact toUInt32_ne_zero hcount

theorem freshTracker_panics (account : Vector UInt8 32) :
    (freshTracker account 6145).ensureCanClaimPendingMintsGroup 256 = .error .panic := by
  have hbusy : ¬ ((freshTracker account 6145).totalPendingMints = 0 ∨
      (freshTracker account 6145).pendingMintsGroupsRemaining = 0) := by
    change ¬ ((6145 : UInt16).toUInt32 = 0 ∨ (computeMintGroupInfo 6145).1.toUInt32 = 0)
    decide
  have hguard : (256 : UInt16) ≤ 256 := by decide
  have hinside : (256 : UInt16) <
      (freshTracker account 6145).getCurrentTotalPendingMintsGroups := by
    rw [UInt16.lt_iff_toNat_lt, freshTracker_groups]
    decide
  simp only [ensureCanClaimPendingMintsGroup, ensure, if_pos hbusy, if_pos hguard, if_pos hinside]
  rfl

/-- A block of 6145 mints is accepted, and its group 256 of 257 makes the check panic. -/
theorem group_outside_bitmap :
    ∃ s', BufferAccepted crypto (genesisState operatorKey 10).coreState
        (mintBuffer 6145 (zeroArea 6145)) s' ∧
      (256 : UInt16).toNat < groupCount (6145 : UInt16).toNat ∧
      s'.tracker.ensureCanClaimPendingMintsGroup 256 = .error .panic := by
  have hhash : crypto.sha256 (Pod.u16.encode 6145 ++
      List.replicate (groupCount (6145 : UInt16).toNat * 32) 0) ≠
      PM_DA_DEFAULT_PENDING_MINTS_BUFFER_HASH := by decide +kernel
  obtain ⟨s', hs'⟩ := zeros_accepted (by decide) (by decide) hhash
  obtain ⟨account, ht⟩ := hs'.tracker
  have hheader : (mintBufferHeader (mintBuffer 6145 (zeroArea 6145))).pendingMintsCount = 6145 :=
    congrArg _ (mintBufferHeader_append _ _)
  refine ⟨s', hs', by decide, ?_⟩
  rw [ht, hheader]
  exact freshTracker_panics account

/-- All orders of claiming the groups of a block of 25 mints. -/
theorem two_groups_every_order :
    ∃ s', BufferAccepted crypto (genesisState operatorKey 10).coreState
        (mintBuffer 25 (zeroArea 25)) s' ∧
      ∀ order : List UInt16, (order.map UInt16.toNat).Perm (List.range (groupCount
          (mintBufferHeader (mintBuffer 25 (zeroArea 25))).pendingMintsCount.toNat)) →
        ∃ t, claimAll s'.tracker order = .ok t ∧ t.isEmpty = true := by
  have hhash : crypto.sha256 (Pod.u16.encode 25 ++
      List.replicate (groupCount (25 : UInt16).toNat * 32) 0) ≠
      PM_DA_DEFAULT_PENDING_MINTS_BUFFER_HASH := by decide +kernel
  obtain ⟨s', hs'⟩ := zeros_accepted (by decide) (by decide) hhash
  have hheader : (mintBufferHeader (mintBuffer 25 (zeroArea 25))).pendingMintsCount = 25 :=
    congrArg _ (mintBufferHeader_append _ _)
  refine ⟨s', hs', (every_order_claims_iff hs').mpr ?_⟩
  rw [hheader]
  decide

end GroupBitmap
