import PsyDogeBridge.BufferHistory
import PsyDogeBridge.MintBuilders

/-! The upload of the mints of a block: `reinit`, `resize` until the buffer is long enough, an
`insert` for each group in any order, and `lock`. Four computations of the groups have to agree:
the client's, the buffer program's in sixteen bits, the bridge's and the prover's. -/
namespace MintUpload

open PodLayout CheckedSteps SolanaRuntime BridgeData MintGroups PendingMintsTracker BlockTransition
  TransitionFacts PendingMintBuffer BufferSteps UploadedGroups BufferLocks BufferHistory
  MintBuilders
open LocalCluster (crypto)

variable {p : Platform} {c : Crypto} {inv : Invocation} {l l' : Ledger} {k w b : Pubkey} {d : Bytes}
  {count : UInt16} {ms : List PendingMint} {done : List ℕ} {n : ℕ}

section Accepting

structure WriterInvocation (k w : Pubkey) (inv : Invocation) : Prop where
  program : inv.programId = PENDING_MINT_BUFFER_BUILDER_PROGRAM_ID
  accounts : ∃ storage payer system rest, inv.accounts = storage :: payer :: system :: rest ∧
    storage.key = k ∧ payer.key = w ∧ payer.isSigner = true
  writes : inv.writes k
  pays : inv.writes w
  system : inv.lists SYSTEM_PROGRAM_ID
  funds : inv.fundsSuffice = true

structure LockerInvocation (k b : Pubkey) (inv : Invocation) : Prop where
  program : inv.programId = PENDING_MINT_BUFFER_BUILDER_PROGRAM_ID
  accounts : ∃ storage signer rest, inv.accounts = storage :: signer :: rest ∧
    storage.key = k ∧ signer.key = b ∧ signer.isSigner = true
  writes : inv.writes k

structure Writable (w b : Pubkey) (d : Bytes) : Prop where
  long : 72 ≤ d.length
  unlocked : (mintBufferHeader d).isLocked = 0
  writer : (mintBufferHeader d).authorizedWriterPublicKey = w
  locker : (mintBufferHeader d).authorizedLockerPublicKey = b

theorem writerAccess_of {storage payer system : AccountInfo} {rest : List AccountInfo}
    (hk : l storage.key = ⟨PENDING_MINT_BUFFER_BUILDER_PROGRAM_ID, d⟩)
    (hprogram : inv.programId = PENDING_MINT_BUFFER_BUILDER_PROGRAM_ID)
    (hs : payer.isSigner = true) (hlong : 72 ≤ d.length)
    (hw : (mintBufferHeader d).authorizedWriterPublicKey = payer.key) :
    writerAccess inv l storage (payer :: system :: rest) = .ok payer := by
  simp only [writerAccess, requireSigner, verifyWriter, bind_ok, ensure_ok, exists_const, pure_ok,
    Prod.exists, nextAccountInfo_ok, hk]
  exact ⟨hprogram.symm, payer, system :: rest, rfl, system, rest, rfl, hs, ⟨hlong, hw⟩, rfl⟩

theorem getTotalBufferSize_permitted (h : Header) :
    Header.getTotalBufferSize h ≤ MAX_PERMITTED_DATA_LENGTH := by
  have hgroups := h.pendingMintGroupsCount.toNat_lt
  have hcount := h.pendingMintsCount.toNat_lt
  change 72 + 32 * h.pendingMintGroupsCount.toNat + h.pendingMintsCount.toNat * 40 ≤
    10 * 1024 * 1024
  omega

theorem reinitLen_permitted (n : ℕ) (count : UInt16) :
    reinitLen n (calculateTargetSize count) ≤ MAX_PERMITTED_DATA_LENGTH := by
  have hcount := count.toNat_lt
  have hsize : calculateTargetSize count = 72 + (count.toNat + 23) / 24 * 32 + count.toNat * 40 :=
    rfl
  have hmax : MAX_PERMITTED_DATA_LENGTH = 10485760 := rfl
  unfold reinitLen
  split <;> omega

/-- `pending_mint_reinit` and `pending_mint_insert` of the client; it has no function for the
data of `resize` and `lock`, which are only a tag. -/
def pendingMintReinit (totalMints : UInt16) : Bytes := 1 :: Pod.u16.encode totalMints
def pendingMintResize : Bytes := [2]
def pendingMintInsert (groupIdx : UInt16) (mintData : Bytes) : Bytes :=
  3 :: (Pod.u16.encode groupIdx ++ mintData)
def pendingMintLock : Bytes := [4]

section

variable (h : WriterInvocation k w inv)
include h

theorem WriterInvocation.signs : inv.signs w := by
  obtain ⟨storage, payer, system, rest, ha, -, hw, hs⟩ := h.accounts
  refine ⟨payer, ?_, hw, hs⟩
  rw [ha]
  simp

section

variable (hk : (l k).owner = PENDING_MINT_BUFFER_BUILDER_PROGRAM_ID)
include hk

theorem WriterInvocation.writeData_ok (d' : Bytes) :
    writeData (ε := Empty) inv l k d' = .ok (l.setData k d') :=
  SolanaRuntime.writeData_ok.mpr ⟨.inr ⟨hk.trans h.program.symm, h.writes⟩, rfl⟩

theorem WriterInvocation.reallocAccount_ok (hn : n ≤ MAX_PERMITTED_DATA_LENGTH)
    (refund : Bool) :
    reallocAccount inv l k w n refund = .ok (l.setData k (resized (l k).data n)) :=
  BufferSteps.reallocAccount_ok (hk.trans h.program.symm) h.writes h.system h.funds h.signs
    h.pays hn

theorem WriterInvocation.reallocIfChanged_ok (hn : n ≤ MAX_PERMITTED_DATA_LENGTH) :
    reallocIfChanged inv l k w n = .ok (l.setData k (resized (l k).data n)) := by
  unfold reallocIfChanged
  split
  · exact h.reallocAccount_ok hk hn true
  · next heq =>
    rw [not_not.mp heq, resized_self, setData_data_self]
    rfl

theorem WriterInvocation.growTowards_ok (hn : n ≤ MAX_PERMITTED_DATA_LENGTH)
    (refund : Bool) :
    growTowards inv l k w n refund = .ok (l.setData k (grown (l k).data n)) := by
  unfold growTowards
  dsimp only
  split
  · exact h.reallocAccount_ok hk (by omega) refund
  · next hle =>
    rw [grown_of_le (Nat.le_of_not_lt hle), setData_data_self]
    rfl

end

theorem WriterInvocation.reinit (hk : l k = ⟨PENDING_MINT_BUFFER_BUILDER_PROGRAM_ID, d⟩)
    (hd : Writable w b d) (count : UInt16) :
    Accepts p c l ⟨inv, pendingMintReinit count⟩ (l.setData k (reinited d count)) := by
  refine ⟨h.program, ?_⟩
  obtain ⟨storage, payer, system, rest, ha, rfl, rfl, hs⟩ := h.accounts
  have howner : (l storage.key).owner = PENDING_MINT_BUFFER_BUILDER_PROGRAM_ID := by rw [hk]
  have hlong := (reinitLen_bounds hd.long count).1
  have hlen : (Pod.u16.encode count).length = 2 := Pod.u16.encode_length count
  have hrealloc := h.reallocIfChanged_ok howner
      (reinitLen_permitted (l storage.key).data.length count)
  rw [hk] at hrealloc
  have hheader : mintBufferHeader (resized d (reinitLen d.length (calculateTargetSize count))) =
      mintBufferHeader d := mintBufferHeader_resized hlong hd.long
  have hupdate : updateHeader (resized d (reinitLen d.length (calculateTargetSize count)))
      (fun h => Header.reinit h count) =
      .ok (withHeader (resized d (reinitLen d.length (calculateTargetSize count)))
        (reinitHeader (mintBufferHeader d) count)) := by
    refine updateHeader_ok.mpr ⟨by rw [resized_length]; exact hlong, _, ?_, rfl⟩
    rw [hheader]
    exact reinit_ok.mpr ⟨hd.unlocked, rfl⟩
  rw [pendingMintReinit, processInstruction, bind_ok]
  refine ⟨(storage, payer :: system :: rest), nextAccountInfo_ok.mpr ha, ?_⟩
  change processReinit inv l storage (payer :: system :: rest) (Pod.u16.encode count) = _
  simp only [processReinit, bind_ok, ensure_ok, exists_const, Pod.decode_encode, hk]
  refine ⟨payer, writerAccess_of hk h.program hs hd.long hd.writer, hlen, _, hrealloc, ?_⟩
  simp only [setData_self, hupdate, Except.ok.injEq, exists_eq_left']
  rw [resized_length, mintBufferHeader_withHeader (by rw [resized_length]; exact hlong),
    withHeader_length (by rw [resized_length]; exact hlong)]
  refine ⟨hlong, ?_⟩
  rw [h.writeData_ok (by rw [setData_owner]; exact howner), setData_setData]
  rfl

theorem WriterInvocation.resize (hk : l k = ⟨PENDING_MINT_BUFFER_BUILDER_PROGRAM_ID, d⟩)
    (hd : Writable w b d) (hshort : d.length ≤ Header.getTotalBufferSize (mintBufferHeader d)) :
    Accepts p c l ⟨inv, pendingMintResize⟩
      (l.setData k (grown d (Header.getTotalBufferSize (mintBufferHeader d)))) := by
  refine ⟨h.program, ?_⟩
  obtain ⟨storage, payer, system, rest, ha, rfl, rfl, hs⟩ := h.accounts
  have hgrow := h.growTowards_ok (l := l) (by rw [hk])
    (getTotalBufferSize_permitted (mintBufferHeader d)) true
  rw [hk] at hgrow
  rw [pendingMintResize, processInstruction, bind_ok]
  refine ⟨(storage, payer :: system :: rest), nextAccountInfo_ok.mpr ha, ?_⟩
  change processResize inv l storage (payer :: system :: rest) = _
  simp only [processResize, bind_ok, ensure_ok, exists_const, hk]
  exact ⟨payer, writerAccess_of hk h.program hs hd.long hd.writer, hd.unlocked, hshort, hgrow⟩

theorem WriterInvocation.insert {g : UInt16} {x d' : Bytes}
    (hk : l k = ⟨PENDING_MINT_BUFFER_BUILDER_PROGRAM_ID, d⟩) (hd : Writable w b d)
    (hi : insertPendingMints c (grown d (Header.getTotalBufferSize (mintBufferHeader d))) g x =
      .ok d') :
    Accepts p c l ⟨inv, pendingMintInsert g x⟩ (l.setData k d') := by
  refine ⟨h.program, ?_⟩
  obtain ⟨storage, payer, system, rest, ha, rfl, rfl, hs⟩ := h.accounts
  have hgrow := h.growTowards_ok (l := l) (by rw [hk])
    (getTotalBufferSize_permitted (mintBufferHeader d)) false
  rw [hk] at hgrow
  have hlen : (Pod.u16.encode g).length = 2 := Pod.u16.encode_length g
  have htwo : 2 ≤ (Pod.u16.encode g ++ x).length := by
    rw [List.length_append]
    omega
  rw [pendingMintInsert, processInstruction, bind_ok]
  refine ⟨(storage, payer :: system :: rest), nextAccountInfo_ok.mpr ha, ?_⟩
  change processInsert c inv l storage (payer :: system :: rest) (Pod.u16.encode g ++ x) = _
  simp only [processInsert, bind_ok, ensure_ok, exists_const, hk, List.take_left' hlen,
    List.drop_left' hlen, Pod.decode_encode]
  refine ⟨payer, writerAccess_of hk h.program hs hd.long hd.writer, htwo, _, hgrow, d', ?_, ?_⟩
  · rw [setData_self]
    exact hi
  · rw [h.writeData_ok (by rw [setData_owner, hk]), setData_setData]

end

theorem LockerInvocation.lock (h : LockerInvocation k b inv)
    (hk : l k = ⟨PENDING_MINT_BUFFER_BUILDER_PROGRAM_ID, d⟩) (hd : Writable w b d)
    (hfull : (mintBufferHeader d).pendingMintsInitialized =
      (mintBufferHeader d).pendingMintsCount) :
    Accepts p c l ⟨inv, pendingMintLock⟩
      (l.setData k (withHeader d { mintBufferHeader d with isLocked := 1 })) := by
  refine ⟨h.program, ?_⟩
  obtain ⟨storage, signer, rest, ha, rfl, rfl, hs⟩ := h.accounts
  have howner : (l storage.key).owner = inv.programId := by rw [hk, h.program]
  rw [pendingMintLock, processInstruction, bind_ok]
  refine ⟨(storage, signer :: rest), nextAccountInfo_ok.mpr ha, ?_⟩
  change lockerUpdate inv l storage (signer :: rest) Header.lock = _
  rw [lockerUpdate_ok]
  refine ⟨howner, signer, rest, rfl, hs, by rw [hk]; exact hd.long,
    { mintBufferHeader d with isLocked := 1 }, ?_, ?_⟩
  · rw [hk]
    exact lock_ok.mpr ⟨hd.unlocked, hfull, hd.locker.symm, rfl⟩
  · rw [hk]
    exact SolanaRuntime.writeData_ok.mpr ⟨.inr ⟨howner, h.writes⟩, rfl⟩

end Accepting

section Filling

variable {g : ℕ}

/-- The group count of `reinit` is right for all counts but the 23 largest, for which it is zero. -/
theorem reinit_groups_le (h : count.toNat ≤ 65512) :
    ((count + 24 - 1) / 24).toNat = groupCount count.toNat := by
  have h24 : (24 : UInt16).toNat = 24 := rfl
  have h1 : (1 : UInt16).toNat = 1 := rfl
  rw [UInt16.toNat_div, UInt16.toNat_sub, UInt16.toNat_add, h24, h1]
  unfold groupCount
  omega

theorem reinit_groups_gt (h : 65512 < count.toNat) : ((count + 24 - 1) / 24).toNat = 0 := by
  have h24 : (24 : UInt16).toNat = 24 := rfl
  have h1 : (1 : UInt16).toNat = 1 := rfl
  have hlt := count.toNat_lt
  rw [UInt16.toNat_div, UInt16.toNat_sub, UInt16.toNat_add, h24, h1]
  omega

/-- The buffer while the groups `done` have been inserted. -/
structure Filling (c : Crypto) (ms : List PendingMint) (w b : Pubkey) (done : List ℕ)
    (d : Bytes) : Prop where
  writable : Writable w b d
  count : countOf d = ms.length
  groups : groupsOf d = groupCount ms.length
  short : d.length ≤ 72 + 32 * groupCount ms.length + 40 * ms.length
  init : initializedOf d = (done.map (groupSize ms.length)).sum
  hashes : ∀ g ∈ done, slice d (72 + 32 * g) 32 = (c.sha256 (groupBytes ms g)).toList
  records : ∀ g ∈ done, slice d (72 + 32 * groupCount ms.length + 960 * g)
    (40 * groupSize ms.length g) = groupBytes ms g
  free : ∀ g < groupCount ms.length, g ∉ done → ∀ i, 72 + 32 * g ≤ i → i < 72 + 32 * g + 32 →
    i < d.length → d[i]? = some 0

theorem reinited_filling (hd : Writable w b d) (hcount : count.toNat = ms.length)
    (hle : ms.length ≤ 65512) : Filling c ms w b [] (reinited d count) := by
  have hheader := reinited_header hd.long count
  have hbounds := reinitLen_bounds hd.long count
  have hgroups : groupsOf (reinited d count) = groupCount ms.length := by
    rw [groupsOf, hheader, ← hcount]
    exact reinit_groups_le (by rw [hcount]; exact hle)
  rw [hcount] at hbounds
  refine ⟨⟨?_, ?_, ?_, ?_⟩, ?_, hgroups, ?_, ?_, ?_, ?_, ?_⟩
  · rw [reinited_length hd.long count]
    exact hbounds.1
  · rw [hheader]
    exact hd.unlocked
  · rw [hheader]
    exact hd.writer
  · rw [hheader]
    exact hd.locker
  · rw [countOf, hheader]
    exact hcount
  · rw [reinited_length hd.long count]
    exact hbounds.2
  · rw [initializedOf, hheader]
    rfl
  · intro g hg
    cases hg
  · intro g hg
    cases hg
  · intro g hg _ i hlow hhigh hlen
    rw [reinited_length hd.long count] at hlen
    refine erased_zero (by rw [resized_length]; exact hbounds.1) _ (by omega) ?_
      (by rw [resized_length]; exact hlen)
    have hsame : (reinitHeader (mintBufferHeader d) count).pendingMintGroupsCount.toNat =
        groupCount ms.length := by
      rw [← hgroups, groupsOf, hheader]
    rw [hsame]
    omega

theorem grown_getElem? {target i : ℕ} (h : i < (grown d target).length) :
    (grown d target)[i]? = if i < d.length then d[i]? else some 0 := by
  rw [grown, resized_length] at h
  rw [grown, resized]
  split
  · next hi =>
    rw [List.getElem?_append_left (by rw [List.length_take]; omega), List.getElem?_take_of_lt h]
  · next hi =>
    rw [List.getElem?_append_right (by rw [List.length_take]; omega), List.getElem?_replicate,
      if_pos (by rw [List.length_take]; omega)]

theorem Writable.grown (h : Writable w b d) (target : ℕ) : Writable w b (grown d target) := by
  have hheader := mintBufferHeader_grown target h.long
  refine ⟨Nat.le_trans h.long (le_grown_length d target), ?_, ?_, ?_⟩
  · rw [hheader]
    exact h.unlocked
  · rw [hheader]
    exact h.writer
  · rw [hheader]
    exact h.locker

theorem slice_grown_of_length {target o : ℕ} (h : (slice d o n).length = n) :
    slice (grown d target) o n = slice d o n := by
  by_cases hn : n = 0
  · rw [hn, slice, slice, List.take_zero, List.take_zero]
  · refine slice_grown ?_
    rw [slice, List.length_take, List.length_drop] at h
    omega

theorem group_end (hg : g < groupCount n) :
    960 * g + 40 * groupSize n g = 40 * min n (24 * (g + 1)) := by
  unfold groupCount at hg
  unfold groupSize
  omega

section

variable (h : Filling c ms w b done d)
include h

theorem Filling.total :
    Header.getTotalBufferSize (mintBufferHeader d) =
      72 + 32 * groupCount ms.length + 40 * ms.length := by
  rw [total_eq, h.groups, h.count]

theorem Filling.grow :
    Filling c ms w b done (grown d (Header.getTotalBufferSize (mintBufferHeader d))) := by
  have hheader := mintBufferHeader_grown (Header.getTotalBufferSize (mintBufferHeader d))
    h.writable.long
  have hshort := h.short
  rw [← h.total] at hshort
  refine ⟨h.writable.grown _, ?_, ?_, ?_, ?_, ?_, ?_, ?_⟩
  · rw [countOf, hheader]
    exact h.count
  · rw [groupsOf, hheader]
    exact h.groups
  · rw [← h.total]
    exact grown_length_le hshort
  · rw [initializedOf, hheader]
    exact h.init
  · intro g hg
    have hhash := h.hashes g hg
    rw [slice_grown_of_length (by rw [hhash, Vector.length_toList]), hhash]
  · intro g hg
    have hrecords := h.records g hg
    rw [slice_grown_of_length (by rw [hrecords, groupBytes_length]), hrecords]
  · intro g hg hnew i hlow hhigh hlen
    rw [grown_getElem? hlen]
    split
    · next hi => exact h.free g hg hnew i hlow hhigh hi
    · rfl

theorem Filling.insertable (hg : g < groupCount ms.length) (hnew : g ∉ done)
    (hfits : 72 + 32 * groupCount ms.length + 40 * min ms.length (24 * (g + 1)) ≤ d.length) :
    Insertable d g (groupBytes ms g) := by
  have hlen := groupBytes_length ms g
  have hend := group_end hg
  have hsize : 40 * groupSize ms.length g ≤ 960 := by
    unfold groupSize
    omega
  refine ⟨h.writable.long, h.writable.unlocked, ?_, by omega, by omega, ?_, by omega, ?_⟩
  · rw [h.groups]
    exact hg
  · rw [h.groups]
    omega
  · apply List.ext_getElem?
    intro i
    rw [slice_getElem?, List.getElem?_replicate]
    split
    · next hi => exact h.free g hg hnew _ (by omega) (by omega) (by omega)
    · rfl

theorem Filling.insert (hg : g < groupCount ms.length) (hnew : g ∉ done)
    (hfits : 72 + 32 * groupCount ms.length + 40 * min ms.length (24 * (g + 1)) ≤ d.length)
    (hdone : ∀ g' ∈ done, g' < groupCount ms.length)
    (hsum : ((done ++ [g]).map (groupSize ms.length)).sum ≤ 65535) :
    Filling c ms w b (done ++ [g]) (inserted c d g (groupBytes ms g)) := by
  have hi := h.insertable hg hnew hfits
  have hheader := inserted_header (c := c) hi
  have hlen := inserted_length (c := c) hi
  have hx := groupBytes_length ms g
  have hsmall := hi.small
  refine ⟨⟨?_, ?_, ?_, ?_⟩, ?_, ?_, ?_, ?_, ?_, ?_, ?_⟩
  · rw [hlen]
    exact h.writable.long
  · rw [hheader]
    exact h.writable.unlocked
  · rw [hheader]
    exact h.writable.writer
  · rw [hheader]
    exact h.writable.locker
  · rw [countOf, hheader]
    exact h.count
  · rw [groupsOf, hheader]
    exact h.groups
  · rw [hlen]
    exact h.short
  · have hinit := h.init
    rw [List.map_append, List.sum_append] at hsum ⊢
    rw [initializedOf] at hinit
    rw [initializedOf, hheader]
    dsimp only
    rw [UInt16.toNat_add, hinit, UInt16.toNat_ofNat', hx,
      Nat.mul_div_cancel_left _ (by decide : 0 < 40), Nat.add_mod_mod]
    simp only [List.map_cons, List.map_nil, List.sum_cons, List.sum_nil, Nat.add_zero] at hsum ⊢
    exact Nat.mod_eq_of_lt (Nat.lt_succ_of_le hsum)
  · intro g' hg'
    rcases List.mem_append.mp hg' with hold | hself
    · have hlt := hdone g' hold
      have hne : g' ≠ g := fun heq => hnew (heq ▸ hold)
      rw [slice_inserted_far hi (by omega) (by omega) (by rw [h.groups]; omega)]
      exact h.hashes g' hold
    · rw [List.mem_singleton.mp hself]
      exact slice_inserted_hash hi
  · intro g' hg'
    rcases List.mem_append.mp hg' with hold | hself
    · have hlt := hdone g' hold
      have hne : g' ≠ g := fun heq => hnew (heq ▸ hold)
      have hsize : 40 * groupSize ms.length g' ≤ 960 := by
        unfold groupSize
        omega
      rw [slice_inserted_far hi (by omega) (by omega) (by rw [h.groups]; omega)]
      exact h.records g' hold
    · rw [List.mem_singleton.mp hself, ← hx, ← h.groups]
      exact slice_inserted_records hi
  · intro g' hg' hnew' i hlow hhigh hlen'
    have hne : g' ≠ g := fun heq => hnew' (by simp [heq])
    have hfar : slice (inserted c d g (groupBytes ms g)) i 1 = slice d i 1 := by
      refine slice_inserted_far hi (by omega) (by omega) (.inl ?_)
      rw [h.groups]
      omega
    have hbyte := congrArg (·[0]?) hfar
    simp only [slice_getElem?, if_pos Nat.one_pos, Nat.add_zero] at hbyte
    rw [hbyte]
    rw [hlen] at hlen'
    exact h.free g' hg' (fun hold => hnew' (List.mem_append_left _ hold)) i hlow hhigh hlen'

end

end Filling

section Sequence

structure GroupInsert where
  inv : Invocation
  group : ℕ
  data : Bytes

def GroupInsert.call (i : GroupInsert) : BufferCall :=
  ⟨i.inv, pendingMintInsert (UInt16.ofNat i.group) i.data⟩

structure Upload where
  reinit : Invocation
  resizes : List Invocation
  inserts : List GroupInsert
  lock : Invocation

def Upload.calls (u : Upload) (totalMints : UInt16) : List BufferCall :=
  [⟨u.reinit, pendingMintReinit totalMints⟩] ++ u.resizes.map (⟨·, pendingMintResize⟩) ++
    u.inserts.map GroupInsert.call ++ [⟨u.lock, pendingMintLock⟩]

/-- The upload of the mints `ms` to a buffer of the length `len`: it is signed and paid for, each
group is inserted once, in any order, and the buffer is resized often enough. -/
structure Upload.Valid (u : Upload) (ms : List PendingMint) (k w b : Pubkey) (len : ℕ) : Prop where
  reinit : WriterInvocation k w u.reinit
  resizes : ∀ inv ∈ u.resizes, WriterInvocation k w inv
  inserts : ∀ i ∈ u.inserts, WriterInvocation k w i.inv ∧
    (PendingMintBufferBuilder.mk ms).serializeGroup i.group = some i.data
  lock : LockerInvocation k b u.lock
  order : (u.inserts.map GroupInsert.group).Perm
    (List.range (PendingMintBufferBuilder.mk ms).numGroups)
  enough : (PendingMintBufferBuilder.mk ms).bufferSize ≤
    reinitLen len (PendingMintBufferBuilder.mk ms).bufferSize +
      MAX_PERMITTED_DATA_INCREASE * u.resizes.length

theorem bufferSize_eq (ms : List PendingMint) : (PendingMintBufferBuilder.mk ms).bufferSize =
    72 + 32 * groupCount ms.length + 40 * ms.length := by
  have hsize : (PendingMintBufferBuilder.mk ms).bufferSize =
    72 + (PendingMintBufferBuilder.mk ms).numGroups * 32 + ms.length * 40 := rfl
  rw [hsize, numGroups_eq]
  omega

theorem resizes_run {resizes : List Invocation} (hinv : ∀ inv ∈ resizes, WriterInvocation k w inv)
    (hk : l k = ⟨PENDING_MINT_BUFFER_BUILDER_PROGRAM_ID, d⟩) (h : Filling c ms w b [] d) :
    ∃ d', Run (Accepts p c) l (resizes.map (⟨·, pendingMintResize⟩)) (l.setData k d') ∧
      Filling c ms w b [] d' ∧ d'.length = min (d.length + 10240 * resizes.length)
        (72 + 32 * groupCount ms.length + 40 * ms.length) := by
  induction resizes generalizing l d with
  | nil =>
    refine ⟨d, ?_, h, ?_⟩
    · have hsame : l.setData k d = l := by
        have hdata : (l k).data = d := by rw [hk]
        rw [← hdata, setData_data_self]
      rw [hsame]
      exact .nil l
    · have hshort := h.short
      simp only [List.length_nil]
      omega
  | cons inv resizes ih =>
    have hshort := h.short
    rw [← h.total] at hshort
    have hfirst := (hinv inv (by simp)).resize (p := p) (c := c) hk h.writable hshort
    have hk' : l.setData k (grown d (Header.getTotalBufferSize (mintBufferHeader d))) k =
        ⟨PENDING_MINT_BUFFER_BUILDER_PROGRAM_ID,
          grown d (Header.getTotalBufferSize (mintBufferHeader d))⟩ := by
      rw [setData_self, hk]
    obtain ⟨d', hrun, hfilling, hlen⟩ := ih (fun i hi => hinv i (by simp [hi])) hk' h.grow
    rw [setData_setData] at hrun
    refine ⟨d', (Run.single hfirst).append hrun, hfilling, ?_⟩
    rw [hlen, grown, resized_length, h.total, List.length_cons]
    have hinc : MAX_PERMITTED_DATA_INCREASE = 10240 := rfl
    rw [h.total] at hshort
    omega

theorem order_next {rest : List ℕ} {g : ℕ}
    (hperm : (done ++ g :: rest).Perm (List.range (groupCount n))) :
    g < groupCount n ∧ g ∉ done ∧ (∀ g' ∈ done, g' < groupCount n) ∧
      ((done ++ [g]).map (groupSize n)).sum ≤ n := by
  have hmem : ∀ g' ∈ done ++ g :: rest, g' < groupCount n := by
    intro g' hg'
    exact List.mem_range.mp (hperm.mem_iff.mp hg')
  have hnodup : (done ++ g :: rest).Nodup := hperm.nodup_iff.mpr List.nodup_range
  have hsum := (hperm.map (groupSize n)).sum_eq.trans (sum_groupSize n)
  refine ⟨hmem g (by simp), ?_, fun g' hg' => hmem g' (List.mem_append_left _ hg'), ?_⟩
  · intro hdone
    exact (List.nodup_append.mp hnodup).2.2 g hdone g (by simp) rfl
  · simp only [List.map_append, List.map_cons, List.map_nil, List.sum_append, List.sum_cons,
      List.sum_nil] at hsum ⊢
    omega

theorem groupIndex_toNat {g : ℕ} (hle : ms.length ≤ 65535) (hg : g < groupCount ms.length) :
    (UInt16.ofNat g).toNat = g := by
  have hfew : groupCount ms.length ≤ groupCount 65535 := groupCount_mono hle
  have hmax : groupCount 65535 = 2731 := rfl
  exact UInt16.toNat_ofNat_of_lt' (by omega : g < 2 ^ 16)

theorem inserts_run {inserts : List GroupInsert}
    (hinv : ∀ i ∈ inserts, WriterInvocation k w i.inv ∧
      (PendingMintBufferBuilder.mk ms).serializeGroup i.group = some i.data)
    (hperm : (done ++ inserts.map GroupInsert.group).Perm (List.range (groupCount ms.length)))
    (hle : ms.length ≤ 65535) (hk : l k = ⟨PENDING_MINT_BUFFER_BUILDER_PROGRAM_ID, d⟩)
    (h : Filling c ms w b done d)
    (hfull : d.length = 72 + 32 * groupCount ms.length + 40 * ms.length) :
    ∃ d', Run (Accepts p c) l (inserts.map GroupInsert.call) (l.setData k d') ∧
      Filling c ms w b (done ++ inserts.map GroupInsert.group) d' ∧
      d'.length = 72 + 32 * groupCount ms.length + 40 * ms.length := by
  induction inserts generalizing l d done with
  | nil =>
    have hsame : l.setData k d = l := by
      have hdata : (l k).data = d := by rw [hk]
      rw [← hdata, setData_data_self]
    refine ⟨d, ?_, ?_, hfull⟩
    · rw [hsame]
      exact .nil l
    · rw [List.map_nil, List.append_nil]
      exact h
  | cons i inserts ih =>
    obtain ⟨hwriter, hdata⟩ := hinv i (by simp)
    obtain ⟨hg, hnew, hdone, hsum⟩ := order_next hperm
    rw [serializeGroup_eq hg, Option.some.injEq] at hdata
    have hfits : 72 + 32 * groupCount ms.length + 40 * min ms.length (24 * (i.group + 1)) ≤
        d.length := by omega
    have hi := h.insertable hg hnew hfits
    have hindex := groupIndex_toNat hle hg
    have hinsert : insertPendingMints c
        (grown d (Header.getTotalBufferSize (mintBufferHeader d))) (UInt16.ofNat i.group) i.data =
        .ok (inserted c d i.group (groupBytes ms i.group)) := by
      rw [grown_of_le (by rw [h.total, hfull]), ← hdata,
        insertPendingMints_iff (by rw [h.groups, h.count]), hindex]
      exact ⟨hi, rfl⟩
    have hfirst := hwriter.insert (p := p) hk h.writable hinsert
    have hk' : l.setData k (inserted c d i.group (groupBytes ms i.group)) k =
        ⟨PENDING_MINT_BUFFER_BUILDER_PROGRAM_ID,
          inserted c d i.group (groupBytes ms i.group)⟩ := by
      rw [setData_self, hk]
    have hstep := h.insert hg hnew hfits hdone (Nat.le_trans hsum hle)
    have hperm' : (done ++ [i.group] ++ inserts.map GroupInsert.group).Perm
        (List.range (groupCount ms.length)) := by
      rw [List.append_assoc]
      exact hperm
    obtain ⟨d', hrun, hfilling, hlen⟩ := ih (fun j hj => hinv j (by simp [hj])) hperm' hk' hstep
      (by rw [inserted_length hi]; exact hfull)
    rw [setData_setData] at hrun
    refine ⟨d', (Run.single hfirst).append hrun, ?_, hlen⟩
    rw [List.append_assoc] at hfilling
    exact hfilling

/-- What the bridge and the claims find in the buffer, once it is locked. -/
structure Delivered (c : Crypto) (ms : List PendingMint) (b : Pubkey) (d : Bytes) : Prop where
  accepted : ∀ hash, (∃ r, ensurePendingMintsReadyForTransitionInner c b hash d = .ok r) ↔
    (PendingMintsGroupsBuilder.appendAll c ms).finalize c = .ok hash
  records : ∀ i (hi : i < ms.length), PendingMint.pod.decode (slice d
    (PendingMintBuffer.getNthPendingMintOffset (mintBufferHeader d) (UInt16.ofNat i))
      PENDING_MINT_SIZE) = ms[i]

theorem Filling.record (h : Filling c ms w b done d)
    (hall : ∀ g < groupCount ms.length, g ∈ done) {i : ℕ} (hi : i < ms.length) :
    slice d (72 + 32 * groupCount ms.length + 40 * i) 40 = PendingMint.pod.encode ms[i] := by
  have hg : i / 24 < groupCount ms.length := by
    unfold groupCount
    omega
  have hinside : 40 * (i % 24) + 40 ≤ 40 * groupSize ms.length (i / 24) := by
    unfold groupSize
    omega
  have hoff : 72 + 32 * groupCount ms.length + 40 * i =
      72 + 32 * groupCount ms.length + 960 * (i / 24) + 40 * (i % 24) := by omega
  rw [← groupBytes_record hi, ← h.records _ (hall _ hg), slice_slice hinside, hoff]

theorem Filling.delivered (h : Filling c ms w b done d)
    (hall : ∀ g < groupCount ms.length, g ∈ done) (hpos : 0 < ms.length)
    (hle : ms.length ≤ 65534)
    (hfull : d.length = 72 + 32 * groupCount ms.length + 40 * ms.length) :
    Delivered c ms b (withHeader d { mintBufferHeader d with isLocked := 1 }) := by
  have hlong := h.writable.long
  have hheader := mintBufferHeader_withHeader (h := { mintBufferHeader d with isLocked := 1 }) hlong
  have hlen := withHeader_length (h := { mintBufferHeader d with isLocked := 1 }) hlong
  have hcount : (mintBufferHeader d).pendingMintsCount = UInt16.ofNat ms.length := by
    rw [← h.count, countOf, UInt16.ofNat_toNat]
  have hnat : (UInt16.ofNat ms.length).toNat = ms.length := by
    rw [← hcount]
    exact h.count
  constructor
  · intro hash
    have hpreimage : slice (withHeader d { mintBufferHeader d with isLocked := 1 }) 70
        (groupCount ms.length * 32 + 2) =
        Pod.u16.encode (UInt16.ofNat ms.length) ++ groupHashes c ms (groupCount ms.length) := by
      rw [hashed_part (by rw [hlen]; exact hlong), hheader, hcount, Nat.mul_comm,
        slice_withHeader hlong (Nat.le_refl 72), slice_pieces fun g hg => h.hashes g (hall g hg)]
      rfl
    rw [finalize_ok hpos (by omega), Except.ok.injEq]
    constructor
    · rintro ⟨⟨h', n⟩, hr⟩
      obtain ⟨hmatches, -⟩ := ensurePendingMintsReadyForTransitionInner_ok.mp hr
      have hn := hmatches.count_eq
      rw [hheader] at hn
      have hhash := hmatches.hash
      rw [← hn] at hhash
      change hash = c.sha256 (slice _ 70 (groupCount (countOf d) * 32 + 2)) at hhash
      rw [h.count, hpreimage] at hhash
      exact hhash.symm
    · intro heq
      refine ⟨(hash, UInt16.ofNat ms.length),
        ensurePendingMintsReadyForTransitionInner_ok.mpr ⟨?_, rfl⟩⟩
      refine ⟨?_, ?_, ?_, ?_, ?_, ?_⟩
      · rw [hnat, hlen]
        omega
      · rw [hheader]
        exact h.writable.locker
      · rw [hheader]
        exact hcount
      · rw [hheader, hnat]
        exact h.groups
      · rw [hnat]
        omega
      · rw [hnat, hpreimage]
        exact heq.symm
  · intro i hi
    have hindex : (UInt16.ofNat i).toNat = i :=
      UInt16.toNat_ofNat_of_lt' (by omega : i < 2 ^ 16)
    have hoff : PendingMintBuffer.getNthPendingMintOffset
        { mintBufferHeader d with isLocked := 1 } (UInt16.ofNat i) =
        72 + 32 * groupCount ms.length + 40 * i := by
      change 72 + groupsOf d * 32 + (UInt16.ofNat i).toNat * 40 = _
      rw [hindex, h.groups]
      omega
    rw [hheader, hoff, slice_withHeader hlong (by change 72 ≤ _; omega)]
    change PendingMint.pod.decode (slice d _ 40) = _
    rw [h.record hall hi, Pod.decode_encode]

def Uploads (p : Platform) (c : Crypto) (ms : List PendingMint) (u : Upload) (k b : Pubkey)
    (l : Ledger) : Prop :=
  ∃ l', Run (Accepts p c) l (u.calls (UInt16.ofNat ms.length)) l' ∧ Delivered c ms b (l' k).data

theorem upload_accepted {u : Upload} (hk : l k = ⟨PENDING_MINT_BUFFER_BUILDER_PROGRAM_ID, d⟩)
    (hd : Writable w b d) (hpos : 0 < ms.length) (hle : ms.length ≤ 65512)
    (hu : u.Valid ms k w b d.length) : Uploads p c ms u k b l := by
  have hnat : (UInt16.ofNat ms.length).toNat = ms.length :=
    UInt16.toNat_ofNat_of_lt' (by omega : ms.length < 2 ^ 16)
  have htarget : calculateTargetSize (UInt16.ofNat ms.length) =
      (PendingMintBufferBuilder.mk ms).bufferSize := by
    rw [bufferSize_eq]
    change 72 + groupCount (UInt16.ofNat ms.length).toNat * 32 +
      (UInt16.ofNat ms.length).toNat * 40 = _
    rw [hnat]
    omega
  have hset (d' : Bytes) : l.setData k d' k = ⟨PENDING_MINT_BUFFER_BUILDER_PROGRAM_ID, d'⟩ := by
    rw [setData_self, hk]
  have hreinit := hu.reinit.reinit (p := p) (c := c) hk hd (UInt16.ofNat ms.length)
  have hstart : Filling c ms w b [] (reinited d (UInt16.ofNat ms.length)) :=
    reinited_filling hd hnat hle
  obtain ⟨d₂, hresizes, hgrown, hlen₂⟩ := resizes_run (p := p) hu.resizes (hset _) hstart
  rw [setData_setData] at hresizes
  have hfull₂ : d₂.length = 72 + 32 * groupCount ms.length + 40 * ms.length := by
    have henough := hu.enough
    have hinc : MAX_PERMITTED_DATA_INCREASE = 10240 := rfl
    rw [hlen₂, reinited_length hd.long _, htarget]
    rw [hinc] at henough
    rw [bufferSize_eq] at henough ⊢
    omega
  have horder := hu.order
  rw [numGroups_eq] at horder
  obtain ⟨d₃, hinserts, hfilled, hfull₃⟩ := inserts_run (p := p) hu.inserts
    (by rw [List.nil_append]; exact horder) (by omega) (hset d₂) hgrown hfull₂
  rw [setData_setData] at hinserts
  rw [List.nil_append] at hfilled
  have hall : ∀ g < groupCount ms.length, g ∈ u.inserts.map GroupInsert.group :=
    fun g hg => horder.mem_iff.mpr (List.mem_range.mpr hg)
  have hinit : (mintBufferHeader d₃).pendingMintsInitialized =
      (mintBufferHeader d₃).pendingMintsCount := by
    apply UInt16.toNat_inj.mp
    change initializedOf d₃ = countOf d₃
    rw [hfilled.init, hfilled.count]
    exact (horder.map _).sum_eq.trans (sum_groupSize _)
  have hlock := hu.lock.lock (p := p) (c := c) (hset d₃) hfilled.writable hinit
  rw [setData_setData] at hlock
  refine ⟨_, (((Run.single hreinit).append hresizes).append hinserts).append (.single hlock), ?_⟩
  rw [hset]
  exact hfilled.delivered hall hpos (by omega) hfull₃

end Sequence

section TooMany

variable {len : ℕ}

def NoGroups (k : Pubkey) (l : Ledger) : Prop := BufferHolds (fun d => groupsOf d = 0) (l k)

theorem noGroups_zeros (hd : 72 ≤ d.length) (hz : ∀ b ∈ d, b = 0) :
    groupsOf d = 0 := by
  rw [groupsOf, mintBufferHeader_zeros hd hz]
  decide

theorem WriterInvocation.storage (h : WriterInvocation k w inv) (data : Bytes) :
    (BufferCall.mk inv data).storage = some k := by
  obtain ⟨storage, payer, system, rest, ha, hk, -⟩ := h.accounts
  rw [BufferCall.storage, ha, ← hk]
  rfl

theorem reinit_noGroups (h : WriterInvocation k w inv) (hlarge : 65512 < count.toNat)
    (haccepts : Accepts p c l ⟨inv, pendingMintReinit count⟩ l') : NoGroups k l' := by
  intro _ _
  obtain ⟨op, d, hop, hperforms, -⟩ :=
    haccepts.performs (P := fun _ => True) (fun _ _ _ => trivial) (h.storage _) fun _ _ => trivial
  have hreinit : BufferOp.ofData (pendingMintReinit count) = some (.reinit count) := by
    change some (BufferOp.reinit (Pod.u16.decode (Pod.u16.encode count))) = _
    rw [Pod.decode_encode]
  rw [hreinit] at hop
  cases hop
  have hlong := hperforms.long
  obtain ⟨-, heq⟩ := Performs.reinit_eq hperforms
  rw [heq, groupsOf, reinited_header hlong]
  exact reinit_groups_gt hlarge

theorem resize_noGroups (h : WriterInvocation k w inv)
    (haccepts : Accepts p c l ⟨inv, pendingMintResize⟩ l') (hl : NoGroups k l) : NoGroups k l' := by
  intro _ _
  obtain ⟨op, d, hop, hperforms, hzero, -⟩ :=
    haccepts.performs (fun _ => noGroups_zeros) (h.storage _) hl
  have hresize : BufferOp.ofData pendingMintResize = some .resize := rfl
  rw [hresize] at hop
  cases hop
  generalize (l' k).data = d' at hperforms ⊢
  cases hperforms with
  | resize hd _ _ =>
    rw [groupsOf, mintBufferHeader_grown _ hd]
    exact hzero

theorem ofData_insert (g : UInt16) (x : Bytes) :
    BufferOp.ofData (pendingMintInsert g x) = some (.insert g x) := by
  have hlen : (Pod.u16.encode g).length = 2 := Pod.u16.encode_length g
  change some (BufferOp.insert (Pod.u16.decode ((Pod.u16.encode g ++ x).take 2))
    ((Pod.u16.encode g ++ x).drop 2)) = _
  rw [List.take_left' hlen, List.drop_left' hlen, Pod.decode_encode]

theorem insert_rejected {g : UInt16} {x : Bytes} (h : WriterInvocation k w inv)
    (hl : NoGroups k l) : ¬ Accepts p c l ⟨inv, pendingMintInsert g x⟩ l' := by
  intro haccepts
  obtain ⟨op, d, hop, hperforms, hzero, -⟩ :=
    haccepts.performs (fun _ => noGroups_zeros) (h.storage _) hl
  rw [ofData_insert] at hop
  cases hop
  cases hperforms with
  | insert hd hd₁ hi =>
    have hup : groupsOf d ≠ 0 → Uploaded c d fun _ => none :=
      fun hne => absurd hzero hne
    obtain ⟨-, hins, -, hgroups⟩ := insert_uploads hup hd hd₁ hi
    have hgroup := hins.group
    rw [hgroups, hzero] at hgroup
    exact absurd hgroup (Nat.not_lt_zero _)

/-- The 23 largest counts: `reinit` makes a buffer without groups. -/
theorem upload_rejected {u : Upload} (hlarge : 65512 < ms.length) (hle : ms.length ≤ 65535)
    (hu : u.Valid ms k w b len) :
    ¬ ∃ l', Run (Accepts p c) l (u.calls (UInt16.ofNat ms.length)) l' := by
  rintro ⟨l', hrun⟩
  have hnat : (UInt16.ofNat ms.length).toNat = ms.length :=
    UInt16.toNat_ofNat_of_lt' (by omega : ms.length < 2 ^ 16)
  rw [Upload.calls] at hrun
  obtain ⟨l₃, hrun₃, -⟩ := hrun.split
  obtain ⟨l₂, hrun₂, hinserts⟩ := hrun₃.split
  obtain ⟨l₁, hreinit, hresizes⟩ := hrun₂.split
  obtain ⟨l₁', hfirst, hnil⟩ := hreinit.head
  rw [← hnil.eq_of_nil] at hfirst
  have hl₁ : NoGroups k l₁ := reinit_noGroups hu.reinit (by rw [hnat]; exact hlarge) hfirst
  have hl₂ : NoGroups k l₂ := by
    have hlabels : ∀ call ∈ u.resizes.map (BufferCall.mk · pendingMintResize),
        ∃ inv, WriterInvocation k w inv ∧ call = ⟨inv, pendingMintResize⟩ := by
      intro call hcall
      obtain ⟨inv, hinv, rfl⟩ := List.mem_map.mp hcall
      exact ⟨inv, hu.resizes inv hinv, rfl⟩
    refine Run.invariant (P := NoGroups k) ?_ (hresizes.restrict hlabels) hl₁
    intro l call l' hl hstep
    obtain ⟨haccepts, inv, hinv, rfl⟩ := hstep
    exact resize_noGroups hinv haccepts hl
  -- there is a group to insert
  have hgroups : 0 < (PendingMintBufferBuilder.mk ms).numGroups := by
    rw [numGroups_eq, groupCount_pos]
    omega
  cases hi : u.inserts with
  | nil =>
    have horder := hu.order
    rw [hi, List.map_nil] at horder
    have hlen := horder.length_eq
    rw [List.length_nil, List.length_range] at hlen
    omega
  | cons i rest =>
    rw [hi] at hinserts
    obtain ⟨l₂', hinsert, -⟩ := hinserts.head
    exact insert_rejected (hu.inserts i (by rw [hi]; simp)).1 hl₂ hinsert

/-- The upload of 1 to 65534 mints works unless there are more than 65512. -/
theorem upload_accepted_iff {d : Bytes} {u : Upload}
    (account : l k = ⟨PENDING_MINT_BUFFER_BUILDER_PROGRAM_ID, d⟩) (writable : Writable w b d)
    (nonempty : 1 ≤ ms.length) (bound : ms.length ≤ 65534) (valid : u.Valid ms k w b d.length) :
    Uploads p c ms u k b l ↔ ms.length ≤ 65512 := by
  constructor
  · intro huploads
    by_contra hlarge
    obtain ⟨l', hrun, -⟩ := huploads
    exact upload_rejected (by omega) (by omega) valid ⟨l', hrun⟩
  · intro hle
    exact upload_accepted account writable nonempty hle valid

def writerInvocation : Invocation := (sampleCall writerKey []).inv
def lockerInvocation : Invocation := (sampleCall lockerKey []).inv

def setupBuffer (locker writer : Pubkey) : Bytes :=
  withHeader (List.replicate 72 0) ⟨locker, writer, 0, 0, 0, 0, 0⟩

theorem setupBuffer_length {locker w : Pubkey} : (setupBuffer locker w).length = 72 := by
  rw [setupBuffer, withHeader_length (by rw [List.length_replicate]), List.length_replicate]

theorem setupBuffer_header {locker w : Pubkey} :
    mintBufferHeader (setupBuffer locker w) = ⟨locker, w, 0, 0, 0, 0, 0⟩ :=
  mintBufferHeader_withHeader (by rw [List.length_replicate])

theorem setupBuffer_writable {locker w : Pubkey} : Writable w locker (setupBuffer locker w) :=
  ⟨by rw [setupBuffer_length], by rw [setupBuffer_header], by rw [setupBuffer_header],
    by rw [setupBuffer_header]⟩

def preparedLedger : Ledger :=
  Function.update unusedLedger bufferKey
    ⟨PENDING_MINT_BUFFER_BUILDER_PROGRAM_ID, setupBuffer lockerKey writerKey⟩

def orderedUpload (ms : List PendingMint) : Upload :=
  ⟨writerInvocation, List.replicate 300 writerInvocation,
    (List.range (PendingMintBufferBuilder.mk ms).numGroups).map fun g =>
      ⟨writerInvocation, g, groupBytes ms g⟩,
    lockerInvocation⟩

theorem writerInvocation_valid : WriterInvocation bufferKey writerKey writerInvocation :=
  ⟨rfl, ⟨_, _, _, _, rfl, rfl, rfl, rfl⟩, by decide, by decide, by decide, rfl⟩

theorem lockerInvocation_valid : LockerInvocation bufferKey lockerKey lockerInvocation :=
  ⟨rfl, ⟨_, _, _, rfl, rfl, rfl, rfl⟩, by decide⟩

theorem orderedUpload_valid (hle : ms.length ≤ 65535) :
    (orderedUpload ms).Valid ms bufferKey writerKey lockerKey
      (setupBuffer lockerKey writerKey).length := by
  refine ⟨writerInvocation_valid, ?_, ?_, ?_, ?_, ?_⟩
  · intro inv hinv
    rw [List.eq_of_mem_replicate hinv]
    exact writerInvocation_valid
  · intro i hi
    obtain ⟨g, hg, rfl⟩ := List.mem_map.mp hi
    rw [List.mem_range, numGroups_eq] at hg
    exact ⟨writerInvocation_valid, serializeGroup_eq hg⟩
  · exact lockerInvocation_valid
  · have hsame : (orderedUpload ms).inserts.map GroupInsert.group =
        List.range (PendingMintBufferBuilder.mk ms).numGroups := by
      rw [orderedUpload, List.map_map]
      exact List.map_id _
    rw [hsame]
  · have hfew : groupCount ms.length ≤ groupCount 65535 := groupCount_mono hle
    have hmax : groupCount 65535 = 2731 := rfl
    have hresizes : (orderedUpload ms).resizes.length = 300 := List.length_replicate
    have hinc : MAX_PERMITTED_DATA_INCREASE = 10240 := rfl
    rw [bufferSize_eq, setupBuffer_length, hresizes, hinc, reinitLen]
    split <;> omega

def sampleMint : PendingMint := ⟨Vector.replicate 32 5, 1000⟩

def threeGroups : List PendingMint := List.replicate 50 sampleMint

theorem three_groups_uploaded : Uploads samplePlatform crypto threeGroups
    (orderedUpload threeGroups) bufferKey lockerKey preparedLedger :=
  (upload_accepted_iff (Function.update_self ..) setupBuffer_writable (by decide) (by decide)
    (orderedUpload_valid (by decide))).mpr (by decide)

theorem many_mints_rejected : ¬ Uploads samplePlatform crypto
    (List.replicate 65513 sampleMint) (orderedUpload (List.replicate 65513 sampleMint)) bufferKey
    lockerKey preparedLedger := by
  rintro ⟨l', hrun, -⟩
  have hlen : (List.replicate 65513 sampleMint).length = 65513 := List.length_replicate
  exact upload_rejected (by rw [hlen]; decide) (by rw [hlen]; decide)
    (orderedUpload_valid (by rw [hlen]; decide)) ⟨l', hrun⟩

end TooMany

end MintUpload
