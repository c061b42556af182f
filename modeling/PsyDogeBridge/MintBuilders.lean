import PsyDogeBridge.MintGroups

/-! How the mints of a block are put into groups off the chain: the client serializes a group to
upload it, and the prover hashes the groups one mint after the other. -/
namespace MintBuilders

open PodLayout CheckedSteps BridgeData MintGroups PendingMintsTracker

abbrev PENDING_MINT_BUFFER_HEADER_SIZE : ℕ := 72

structure PendingMintBufferBuilder where
  mints : List PendingMint

namespace PendingMintBufferBuilder

variable (b : PendingMintBufferBuilder)

def numGroups : ℕ :=
  if b.mints.isEmpty then 0
  else (b.mints.length + PM_MAX_PENDING_MINTS_PER_GROUP - 1) / PM_MAX_PENDING_MINTS_PER_GROUP

def bufferSize : ℕ :=
  PENDING_MINT_BUFFER_HEADER_SIZE + b.numGroups * 32 + b.mints.length * PM_DA_PENDING_MINT_SIZE

/-- The slice `start..end` panics if it starts behind its end. -/
def getGroup (groupIdx : ℕ) : Option (List PendingMint) :=
  let start := groupIdx * PM_MAX_PENDING_MINTS_PER_GROUP
  let stop := min (start + PM_MAX_PENDING_MINTS_PER_GROUP) b.mints.length
  if start ≤ stop then some ((b.mints.drop start).take (stop - start)) else none

def serializeGroup (groupIdx : ℕ) : Option Bytes :=
  (b.getGroup groupIdx).map fun group => group.flatMap PendingMint.pod.encode

end PendingMintBufferBuilder

/-- Why the builder fails: it counts the mints in sixteen bits. -/
inductive BuilderError where
  | tooManyPendingMints (totalItems : ℕ)
  deriving DecidableEq, Repr

structure PendingMintsGroupsBuilder where
  groupHashesBuffer : Bytes
  currentGroup : Bytes
  nextItemInGroupIndex : ℕ
  totalGroups : ℕ

namespace PendingMintsGroupsBuilder

def new : PendingMintsGroupsBuilder :=
  ⟨List.replicate 2 0,
    List.replicate (PM_MAX_PENDING_MINTS_PER_GROUP * PM_DA_PENDING_MINT_SIZE) 0, 0, 0⟩

/-- A full group is hashed when the next mint comes. -/
def closeFullGroup (c : Crypto) (b : PendingMintsGroupsBuilder) : PendingMintsGroupsBuilder :=
  if b.nextItemInGroupIndex = PM_MAX_PENDING_MINTS_PER_GROUP then
    let hash := c.sha256
      (b.currentGroup.take (PM_MAX_PENDING_MINTS_PER_GROUP * PM_DA_PENDING_MINT_SIZE))
    { b with
      groupHashesBuffer := b.groupHashesBuffer ++ hash.toList
      nextItemInGroupIndex := 0
      totalGroups := b.totalGroups + 1 }
  else b

def writeItem (b : PendingMintsGroupsBuilder) (recipient : Vector UInt8 32) (amount : UInt64) :
    PendingMintsGroupsBuilder :=
  let off := b.nextItemInGroupIndex * PM_DA_PENDING_MINT_SIZE
  { b with
    currentGroup := splice (splice b.currentGroup off recipient.toList) (off + 32)
      (Pod.u64.encode amount)
    nextItemInGroupIndex := b.nextItemInGroupIndex + 1 }

def appendPendingMint (c : Crypto) (b : PendingMintsGroupsBuilder)
    (recipient : Vector UInt8 32) (amount : UInt64) : PendingMintsGroupsBuilder :=
  (b.closeFullGroup c).writeItem recipient amount

def finalize (c : Crypto) (b : PendingMintsGroupsBuilder) : Except BuilderError QHash256 :=
  if b.totalGroups ≠ 0 ∨ b.nextItemInGroupIndex > 0 then do
    let totalItems := b.totalGroups * PM_MAX_PENDING_MINTS_PER_GROUP + b.nextItemInGroupIndex
    let groupHashesBuffer :=
      if b.nextItemInGroupIndex > 0 then
        b.groupHashesBuffer ++ (c.sha256
          (b.currentGroup.take (b.nextItemInGroupIndex * PM_DA_PENDING_MINT_SIZE))).toList
      else b.groupHashesBuffer
    ensure (totalItems ≤ 65535) (.tooManyPendingMints totalItems)
    pure (c.sha256 (splice groupHashesBuffer 0 (Pod.u16.encode (UInt16.ofNat totalItems))))
  else pure (c.sha256 b.groupHashesBuffer)

def appendAll (c : Crypto) (mints : List PendingMint) : PendingMintsGroupsBuilder :=
  mints.foldl (fun b m => b.appendPendingMint c m.recipient m.amount) new

end PendingMintsGroupsBuilder

section Groups

variable {ms : List PendingMint} {g : ℕ}

def groupBytes (ms : List PendingMint) (g : ℕ) : Bytes :=
  ((ms.drop (24 * g)).take 24).flatMap PendingMint.pod.encode

theorem records_length (ms : List PendingMint) :
    (ms.flatMap PendingMint.pod.encode).length = 40 * ms.length := by
  simp [List.length_flatMap, Nat.mul_comm]

theorem groupBytes_length (ms : List PendingMint) (g : ℕ) :
    (groupBytes ms g).length = 40 * groupSize ms.length g := by
  rw [groupBytes, records_length, List.length_take, List.length_drop, groupSize]

theorem numGroups_eq (ms : List PendingMint) :
    (PendingMintBufferBuilder.mk ms).numGroups = groupCount ms.length := by
  unfold PendingMintBufferBuilder.numGroups groupCount
  cases ms with
  | nil => rfl
  | cons m ms => rfl

theorem serializeGroup_eq (hg : g < groupCount ms.length) :
    (PendingMintBufferBuilder.mk ms).serializeGroup g = some (groupBytes ms g) := by
  have hstart : g * 24 ≤ min (g * 24 + 24) ms.length := by
    unfold groupCount at hg
    omega
  have htake : (ms.drop (24 * g)).take (min (g * 24 + 24) ms.length - g * 24) =
      (ms.drop (24 * g)).take 24 := by
    apply List.take_eq_take_iff.mpr
    rw [List.length_drop]
    omega
  rw [PendingMintBufferBuilder.serializeGroup, PendingMintBufferBuilder.getGroup]
  simp only [if_pos hstart, Option.map_some]
  rw [Nat.mul_comm g 24] at htake ⊢
  rw [htake, groupBytes]

theorem groupBytes_record {i : ℕ} (hi : i < ms.length) :
    slice (groupBytes ms (i / 24)) (40 * (i % 24)) 40 = PendingMint.pod.encode ms[i] := by
  have hlt : i % 24 < ((ms.drop (24 * (i / 24))).take 24).length := by
    rw [List.length_take, List.length_drop]
    omega
  have hblock := Pod.block_flatMap PendingMint.pod _ _ hlt
  have hsum : 24 * (i / 24) + i % 24 = i := Nat.div_add_mod i 24
  simp only [List.getElem_take, List.getElem_drop, hsum] at hblock
  rw [← hblock, Nat.mul_comm 40]
  rfl

end Groups

section Hash

variable {c : Crypto} {ms : List PendingMint} {m : PendingMint} {b : PendingMintsGroupsBuilder}

open PendingMintsGroupsBuilder

def groupHashes (c : Crypto) (ms : List PendingMint) (k : ℕ) : Bytes :=
  (List.range k).flatMap fun g => (c.sha256 (groupBytes ms g)).toList

theorem groupHashes_succ (k : ℕ) : groupHashes c ms (k + 1) =
    groupHashes c ms k ++ (c.sha256 (groupBytes ms k)).toList := by
  rw [groupHashes, List.range_succ, List.flatMap_append, List.flatMap_singleton, groupHashes]

theorem groupHashes_append {k : ℕ} (hk : 24 * k ≤ ms.length) (m : PendingMint) :
    groupHashes c (ms ++ [m]) k = groupHashes c ms k := by
  apply List.flatMap_congr
  intro g hg
  have hlt := List.mem_range.mp hg
  rw [groupBytes, groupBytes, List.drop_append_of_le_length (by omega),
    List.take_append_of_le_length (by rw [List.length_drop]; omega)]

/-- What the builder has seen: full groups that are hashed, and a group that is not. The group
stays open until another mint comes, so it is not empty once there are mints. -/
structure Built (c : Crypto) (ms : List PendingMint) (b : PendingMintsGroupsBuilder) : Prop where
  count : ms.length = 24 * b.totalGroups + b.nextItemInGroupIndex
  room : b.nextItemInGroupIndex ≤ 24
  started : b.nextItemInGroupIndex = 0 → ms = []
  hashes : b.groupHashesBuffer = [0, 0] ++ groupHashes c ms b.totalGroups
  long : b.currentGroup.length = 960
  current : b.currentGroup.take (40 * b.nextItemInGroupIndex) =
    (ms.drop (24 * b.totalGroups)).flatMap PendingMint.pod.encode

theorem built_new : Built c [] new := by
  refine ⟨rfl, by decide, fun _ => rfl, rfl, ?_, rfl⟩
  exact List.length_replicate

theorem Built.open_group (h : Built c ms b) :
    b.currentGroup.take (40 * b.nextItemInGroupIndex) = groupBytes ms b.totalGroups := by
  have hcount := h.count
  have hroom := h.room
  rw [h.current, groupBytes, List.take_of_length_le (by rw [List.length_drop]; omega)]

theorem take_splice {l x : Bytes} {off n : ℕ} (h : off ≤ l.length) (hn : x.length = n) :
    (splice l off x).take (off + n) = l.take off ++ x := by
  rw [splice]
  refine List.take_left' ?_
  rw [List.length_append, List.length_take, Nat.min_eq_left h, hn]

theorem writeItem_current (h : b.currentGroup.length = 960) (hroom : b.nextItemInGroupIndex < 24) :
    (b.writeItem m.recipient m.amount).currentGroup.length = 960 ∧
    (b.writeItem m.recipient m.amount).currentGroup.take (40 * (b.nextItemInGroupIndex + 1)) =
      b.currentGroup.take (40 * b.nextItemInGroupIndex) ++ PendingMint.pod.encode m := by
  have hr : m.recipient.toList.length = 32 := Vector.length_toList
  have ha : (Pod.u64.encode m.amount).length = 8 := Pod.u64.encode_length _
  have hencode : PendingMint.pod.encode m = m.recipient.toList ++ Pod.u64.encode m.amount := by
    change hashPod.encode m.recipient ++ Pod.u64.encode m.amount = _
    rw [hashPod, Pod.bytes_encode]
  have hfirst : (splice b.currentGroup (b.nextItemInGroupIndex * 40) m.recipient.toList).length =
      960 := by
    rw [splice_length (by omega), h]
  have hend : 40 * (b.nextItemInGroupIndex + 1) = b.nextItemInGroupIndex * 40 + 32 + 8 := by omega
  change (splice (splice b.currentGroup (b.nextItemInGroupIndex * 40) m.recipient.toList)
      (b.nextItemInGroupIndex * 40 + 32) (Pod.u64.encode m.amount)).length = 960 ∧
    (splice (splice b.currentGroup (b.nextItemInGroupIndex * 40) m.recipient.toList)
      (b.nextItemInGroupIndex * 40 + 32) (Pod.u64.encode m.amount)).take
        (40 * (b.nextItemInGroupIndex + 1)) = _
  refine ⟨by rw [splice_length (by omega), hfirst], ?_⟩
  rw [hend, take_splice (by omega) ha, take_splice (by omega) hr, hencode, Nat.mul_comm 40,
    List.append_assoc]

theorem Built.closed (h : Built c ms b) : (b.closeFullGroup c).nextItemInGroupIndex < 24 ∧
    ms.length = 24 * (b.closeFullGroup c).totalGroups + (b.closeFullGroup c).nextItemInGroupIndex ∧
    (b.closeFullGroup c).groupHashesBuffer =
      [0, 0] ++ groupHashes c ms (b.closeFullGroup c).totalGroups ∧
    (b.closeFullGroup c).currentGroup.length = 960 ∧
    (b.closeFullGroup c).currentGroup.take (40 * (b.closeFullGroup c).nextItemInGroupIndex) =
      (ms.drop (24 * (b.closeFullGroup c).totalGroups)).flatMap PendingMint.pod.encode := by
  have hcount := h.count
  by_cases hfull : b.nextItemInGroupIndex = 24
  · have hopen := h.open_group
    rw [hfull] at hopen hcount
    have hclose : b.closeFullGroup c = ⟨b.groupHashesBuffer ++
        (c.sha256 (b.currentGroup.take 960)).toList, b.currentGroup, 0, b.totalGroups + 1⟩ :=
      if_pos hfull
    rw [hclose]
    dsimp only
    refine ⟨by decide, by omega, ?_, h.long, ?_⟩
    · rw [groupHashes_succ, h.hashes, hopen, List.append_assoc]
    · rw [List.drop_eq_nil_of_le (by omega)]
      rfl
  · have hroom := h.room
    have hclose : b.closeFullGroup c = b := if_neg hfull
    rw [hclose]
    exact ⟨by omega, hcount, h.hashes, h.long, h.current⟩

theorem Built.append (h : Built c ms b) :
    Built c (ms ++ [m]) (b.appendPendingMint c m.recipient m.amount) := by
  obtain ⟨hroom, hcount, hhashes, hlong, hcurrent⟩ := h.closed
  obtain ⟨hlong', hcurrent'⟩ := writeItem_current (m := m) hlong hroom
  refine ⟨?_, hroom, ?_, ?_, hlong', ?_⟩
  · rw [List.length_append, hcount]
    rfl
  · intro hzero
    exact absurd hzero (Nat.succ_ne_zero _)
  · change (b.closeFullGroup c).groupHashesBuffer =
      [0, 0] ++ groupHashes c (ms ++ [m]) (b.closeFullGroup c).totalGroups
    rw [groupHashes_append (by omega)]
    exact hhashes
  · have hdrop : (ms ++ [m]).drop (24 * (b.closeFullGroup c).totalGroups) =
        ms.drop (24 * (b.closeFullGroup c).totalGroups) ++ [m] :=
      List.drop_append_of_le_length (by omega)
    refine hcurrent'.trans ?_
    change _ = ((ms ++ [m]).drop (24 * (b.closeFullGroup c).totalGroups)).flatMap _
    rw [hdrop, List.flatMap_append, List.flatMap_singleton, hcurrent]

theorem appendAll_built (c : Crypto) (ms : List PendingMint) : Built c ms (appendAll c ms) := by
  induction ms using List.reverseRecOn with
  | nil => exact built_new
  | append_singleton ms m ih =>
    rw [appendAll, List.foldl_append]
    exact ih.append

theorem finalize_ok (hpos : 0 < ms.length) (hbound : ms.length ≤ 65535) :
    (appendAll c ms).finalize c = .ok (c.sha256 (Pod.u16.encode (UInt16.ofNat ms.length) ++
      groupHashes c ms (groupCount ms.length))) := by
  have h := appendAll_built c ms
  have hcount := h.count
  have hroom := h.room
  have hopen : 0 < (appendAll c ms).nextItemInGroupIndex := by
    refine Nat.pos_of_ne_zero ?_
    intro hzero
    rw [h.started hzero] at hpos
    exact absurd hpos (Nat.lt_irrefl 0)
  have hgroups : groupCount ms.length = (appendAll c ms).totalGroups + 1 := by
    unfold groupCount
    omega
  have htotal : (appendAll c ms).totalGroups * 24 + (appendAll c ms).nextItemInGroupIndex =
      ms.length := by omega
  have hpreimage : splice ([0, 0] ++ groupHashes c ms (appendAll c ms).totalGroups ++
      (c.sha256 (groupBytes ms (appendAll c ms).totalGroups)).toList) 0
        (Pod.u16.encode (UInt16.ofNat ms.length)) =
      Pod.u16.encode (UInt16.ofNat ms.length) ++ groupHashes c ms (groupCount ms.length) := by
    rw [hgroups, groupHashes_succ, List.append_assoc]
    rfl
  rw [finalize, if_pos (.inr hopen)]
  simp only [if_pos hopen, bind_ok, ensure_ok, exists_const, pure_ok, htotal]
  refine ⟨hbound, ?_⟩
  rw [Nat.mul_comm _ 40, h.open_group, h.hashes, hpreimage]

end Hash

end MintBuilders
