import Mathlib.Algebra.BigOperators.Group.Finset.Piecewise
import Mathlib.Algebra.Order.BigOperators.Group.Finset
import PsyDogeBridge.BufferSteps
import PsyDogeBridge.MintGroups

/-! What a mint buffer holds, whatever was uploaded to it and in which order. The bridge hashes
only the list of group hashes; that the mints behind it are the hashed ones is an invariant of
the mint buffer program. -/
namespace UploadedGroups

open PodLayout CheckedSteps SolanaRuntime BridgeData MintGroups PendingMintsTracker
  PendingMintBuffer BufferSteps

variable {c : Crypto} {d d' x : Bytes} {up : ℕ → Option Bytes} {groups g n : ℕ}

def groupsOf (d : Bytes) : ℕ := (mintBufferHeader d).pendingMintGroupsCount.toNat
def countOf (d : Bytes) : ℕ := (mintBufferHeader d).pendingMintsCount.toNat
def initializedOf (d : Bytes) : ℕ := (mintBufferHeader d).pendingMintsInitialized.toNat

theorem sum_groupSize (n : ℕ) : ∑ g ∈ Finset.range (groupCount n), groupSize n g = n := by
  have hsum (k : ℕ) : ∑ g ∈ Finset.range k, groupSize n g = min (24 * k) n := by
    induction k with
    | zero => simp
    | succ k ih =>
      rw [Finset.sum_range_succ, ih, groupSize]
      omega
  rw [hsum, groupCount]
  omega

structure Inserted (c : Crypto) (d : Bytes) (groups g : ℕ) (x : Bytes) : Prop where
  whole : x.length % 40 = 0
  small : x.length ≤ 960
  nonzero : c.sha256 x ≠ zeroBytes
  slot : 72 + 32 * g + 32 ≤ d.length
  hash : slice d (72 + 32 * g) 32 = (c.sha256 x).toList
  inside : 72 + 32 * groups + 960 * g + x.length ≤ d.length
  records : slice d (72 + 32 * groups + 960 * g) x.length = x

def size (up : ℕ → Option Bytes) (g : ℕ) : ℕ :=
  match up g with
  | none => 0
  | some x => x.length / 40

/-- The data `up` were uploaded, and the counter says how many mints that is. The buffer is not
longer than its mints need, which is what keeps the last group from being too large. -/
structure Uploaded (c : Crypto) (d : Bytes) (up : ℕ → Option Bytes) : Prop where
  groups : groupsOf d = groupCount (countOf d)
  short : d.length ≤ 72 + 32 * groupsOf d + 40 * countOf d
  each : ∀ g x, g < groupsOf d → up g = some x → Inserted c d (groupsOf d) g x
  sum : initializedOf d = ∑ g ∈ Finset.range (groupsOf d), size up g

theorem Inserted.size_le (h : Inserted c d groups g x)
    (short : d.length ≤ 72 + 32 * groups + 40 * n) : x.length / 40 ≤ groupSize n g := by
  have hsmall := h.small
  have hinside := h.inside
  unfold groupSize
  omega

theorem Inserted.frame (h : Inserted c d groups g x) (hlen : d.length ≤ d'.length)
    (hsame : ∀ o k, 72 ≤ o → o + k ≤ d.length → slice d' o k = slice d o k) :
    Inserted c d' groups g x := by
  refine ⟨h.whole, h.small, h.nonzero, Nat.le_trans h.slot hlen, ?_, Nat.le_trans h.inside hlen, ?_⟩
  · rw [hsame _ _ (by omega) h.slot]
    exact h.hash
  · rw [hsame _ _ (by omega) h.inside]
    exact h.records

theorem size_le (short : d.length ≤ 72 + 32 * groups + 40 * n)
    (each : ∀ g x, g < groups → up g = some x → Inserted c d groups g x) (hg : g < groups) :
    size up g ≤ groupSize n g := by
  unfold size
  split
  · exact Nat.zero_le _
  · next x hx => exact (each g x hg hx).size_le short

theorem sum_size_le (groups_eq : groups = groupCount n)
    (short : d.length ≤ 72 + 32 * groups + 40 * n)
    (each : ∀ g x, g < groups → up g = some x → Inserted c d groups g x) :
    ∑ g ∈ Finset.range groups, size up g ≤ n := by
  calc ∑ g ∈ Finset.range groups, size up g
      ≤ ∑ g ∈ Finset.range groups, groupSize n g := by
        apply Finset.sum_le_sum
        intro g hg
        exact size_le short each (Finset.mem_range.mp hg)
    _ = n := by rw [groups_eq, sum_groupSize]

theorem Uploaded.up_full (h : Uploaded c d up) (hfull : initializedOf d = countOf d)
    (hg : g < groupsOf d) :
    ∃ x, up g = some x ∧ x.length = 40 * groupSize (countOf d) g := by
  have hle : ∀ i ∈ Finset.range (groupsOf d), size up i ≤ groupSize (countOf d) i := by
    intro i hi
    exact size_le h.short h.each (Finset.mem_range.mp hi)
  have hsums : ∑ i ∈ Finset.range (groupsOf d), size up i =
      ∑ i ∈ Finset.range (groupsOf d), groupSize (countOf d) i := by
    rw [← h.sum, hfull, h.groups, sum_groupSize]
  have heq : size up g = groupSize (countOf d) g :=
    (Finset.sum_eq_sum_iff_of_le hle).mp hsums g (Finset.mem_range.mpr hg)
  have hpos : 0 < groupSize (countOf d) g := groupSize_pos (h.groups ▸ hg)
  unfold size at heq
  split at heq
  · omega
  · next x hx =>
    have hwhole := (h.each g x hg hx).whole
    exact ⟨x, hx, by omega⟩

theorem Uploaded.full (h : Uploaded c d up) (hfull : initializedOf d = countOf d)
    (hg : g < groupsOf d) :
    ∃ x, Inserted c d (groupsOf d) g x ∧ x.length = 40 * groupSize (countOf d) g := by
  obtain ⟨x, hx, hlen⟩ := h.up_full hfull hg
  exact ⟨x, h.each g x hg hx, hlen⟩

section Steps

variable {signs : Pubkey → Prop} {upload : Bytes}

structure Good (c : Crypto) (d : Bytes) : Prop where
  filled : groupsOf d ≠ 0 → ∃ up, Uploaded c d up
  complete : (mintBufferHeader d).isLocked ≠ 0 → initializedOf d = countOf d

theorem Good.uploads (h : Good c d) : ∃ up, groupsOf d ≠ 0 → Uploaded c d up := by
  by_cases hne : groupsOf d = 0
  · exact ⟨fun _ => none, fun h => absurd hne h⟩
  · obtain ⟨up, hup⟩ := h.filled hne
    exact ⟨up, fun _ => hup⟩

theorem mintBufferHeader_zeros (hd : 72 ≤ d.length) (hz : ∀ b ∈ d, b = 0) :
    mintBufferHeader d = PendingMintsBufferStateHeader.pod.decode (List.replicate 72 0) := by
  have hslice : slice d 0 PM_DA_PENDING_MINTS_BUFFER_STATE_HEADER_SIZE = List.replicate 72 0 := by
    refine List.eq_replicate_iff.mpr ⟨slice_length hd, ?_⟩
    intro b hb
    exact hz b (List.mem_of_mem_drop (List.mem_of_mem_take hb))
  rw [mintBufferHeader, hslice]

theorem good_of_zeros (hd : 72 ≤ d.length) (hz : ∀ b ∈ d, b = 0) : Good c d := by
  have hheader := mintBufferHeader_zeros hd hz
  constructor
  · intro h
    exact absurd (by rw [groupsOf, hheader]; decide) h
  · intro h
    exact absurd (by rw [hheader]; decide) h

theorem Uploaded.frame (h : Uploaded c d up) (hgroups : groupsOf d' = groupsOf d)
    (hcount : countOf d' = countOf d) (hinit : initializedOf d' = initializedOf d)
    (hlen : d.length ≤ d'.length) (hshort : d'.length ≤ 72 + 32 * groupsOf d + 40 * countOf d)
    (hsame : ∀ o k, 72 ≤ o → o + k ≤ d.length → slice d' o k = slice d o k) :
    Uploaded c d' up := by
  refine ⟨?_, ?_, ?_, ?_⟩
  · rw [hgroups, hcount]
    exact h.groups
  · rw [hgroups, hcount]
    exact hshort
  · intro g x hg hx
    rw [hgroups] at hg ⊢
    exact (h.each g x hg hx).frame hlen hsame
  · rw [hinit, hgroups]
    exact h.sum

theorem total_eq (d : Bytes) :
    Header.getTotalBufferSize (mintBufferHeader d) = 72 + 32 * groupsOf d + 40 * countOf d := by
  change 72 + 32 * groupsOf d + countOf d * 40 = _
  omega

theorem grown_length_le {target : ℕ} (h : d.length ≤ target) :
    (grown d target).length ≤ target := by
  rw [grown, resized_length]
  omega

theorem le_grown_length (d : Bytes) (target : ℕ) : d.length ≤ (grown d target).length := by
  rw [grown, resized_length]
  omega

theorem slice_grown {target o k : ℕ} (h : o + k ≤ d.length) :
    slice (grown d target) o k = slice d o k := by
  refine slice_resized ?_ h
  omega

theorem mintBufferHeader_grown (target : ℕ) (h : 72 ≤ d.length) :
    mintBufferHeader (grown d target) = mintBufferHeader d := by
  refine mintBufferHeader_resized ?_ h
  change 72 ≤ _
  omega

theorem Uploaded.grown (h : Uploaded c d up) (hd : 72 ≤ d.length) :
    Uploaded c (grown d (Header.getTotalBufferSize (mintBufferHeader d))) up := by
  have hheader := mintBufferHeader_grown (Header.getTotalBufferSize (mintBufferHeader d)) hd
  refine h.frame (by rw [groupsOf, hheader]; rfl) (by rw [countOf, hheader]; rfl)
    (by rw [initializedOf, hheader]; rfl) (le_grown_length _ _) ?_ (fun o k _ hk => slice_grown hk)
  rw [← total_eq]
  refine grown_length_le ?_
  rw [total_eq]
  exact h.short

theorem reinit_groups {count : UInt16} (h : ((count + 24 - 1) / 24).toNat ≠ 0) :
    ((count + 24 - 1) / 24).toNat = groupCount count.toNat := by
  have h24 : (24 : UInt16).toNat = 24 := rfl
  have h1 : (1 : UInt16).toNat = 1 := rfl
  have hlt := count.toNat_lt
  rw [UInt16.toNat_div, UInt16.toNat_sub, UInt16.toNat_add, h24, h1] at h ⊢
  unfold groupCount
  omega

theorem mintBufferHeader_splice {b : Bytes} {off : ℕ} (hoff : 72 ≤ off)
    (h : off + b.length ≤ d.length) : mintBufferHeader (splice d off b) = mintBufferHeader d := by
  rw [mintBufferHeader, slice_splice_disjoint h (.inl hoff), mintBufferHeader]

section Reinit

variable {count : UInt16}

def reinitHeader (h : Header) (count : UInt16) : Header :=
  { h with
    pendingMintsCount := count
    pendingMintGroupsCount := (count + 24 - 1) / 24
    pendingMintsInitialized := 0 }

def erased (d : Bytes) (h' : Header) : Bytes :=
  splice (withHeader d h') HEADER_SIZE (List.replicate
    (min (HEADER_SIZE + h'.pendingMintGroupsCount.toNat * 32) d.length - HEADER_SIZE) 0)

def reinited (d : Bytes) (count : UInt16) : Bytes :=
  erased (resized d (reinitLen d.length (calculateTargetSize count)))
    (reinitHeader (mintBufferHeader d) count)

section Erased

variable (hd : 72 ≤ d.length) (h' : Header)

include hd

theorem erased_fits : HEADER_SIZE + (List.replicate
    (min (HEADER_SIZE + h'.pendingMintGroupsCount.toNat * 32) d.length - HEADER_SIZE)
      (0 : UInt8)).length ≤ (withHeader d h').length := by
  rw [withHeader_length hd, List.length_replicate]
  have h72 : HEADER_SIZE = 72 := rfl
  omega

theorem erased_length : (erased d h').length = d.length := by
  rw [erased, splice_length (erased_fits hd h'), withHeader_length hd]

theorem erased_header : mintBufferHeader (erased d h') = h' := by
  rw [erased, mintBufferHeader_splice (Nat.le_refl 72) (erased_fits hd h'),
    mintBufferHeader_withHeader hd]

theorem erased_zero {i : ℕ} (hi : 72 ≤ i) (hhash : i < 72 + 32 * h'.pendingMintGroupsCount.toNat)
    (hlen : i < d.length) : (erased d h')[i]? = some 0 := by
  have h72 : HEADER_SIZE = 72 := rfl
  have hrange : HEADER_SIZE ≤ i ∧ i < HEADER_SIZE + (List.replicate
      (min (HEADER_SIZE + h'.pendingMintGroupsCount.toNat * 32) d.length - HEADER_SIZE)
        (0 : UInt8)).length := by
    rw [List.length_replicate]
    omega
  rw [erased, splice_getElem? (erased_fits hd h'), if_pos hrange, List.getElem?_replicate,
    if_pos (by omega)]

end Erased

theorem reinit_ok {h h' : Header} :
    Header.reinit h count = .ok h' ↔ h.isLocked = 0 ∧ h' = reinitHeader h count := by
  simp only [Header.reinit, bind_ok, ensure_ok, exists_const, pure_ok, eq_comm (a := h')]
  rfl

theorem reinitLen_bounds (hd : 72 ≤ d.length) (count : UInt16) :
    72 ≤ reinitLen d.length (calculateTargetSize count) ∧
      reinitLen d.length (calculateTargetSize count) ≤
        72 + 32 * groupCount count.toNat + 40 * count.toNat := by
  have hsize : calculateTargetSize count = 72 + groupCount count.toNat * 32 + count.toNat * 40 :=
    rfl
  unfold reinitLen
  split <;> omega

theorem reinited_length (hd : 72 ≤ d.length) (count : UInt16) :
    (reinited d count).length = reinitLen d.length (calculateTargetSize count) := by
  rw [reinited, erased_length (by rw [resized_length]; exact (reinitLen_bounds hd _).1),
    resized_length]

theorem reinited_header (hd : 72 ≤ d.length) (count : UInt16) :
    mintBufferHeader (reinited d count) = reinitHeader (mintBufferHeader d) count :=
  erased_header (by rw [resized_length]; exact (reinitLen_bounds hd _).1) _

theorem Performs.reinit_eq (h : Performs c signs (.reinit count) d d') :
    (mintBufferHeader d).isLocked = 0 ∧ d' = reinited d count := by
  cases h with
  | @reinit _ d₁ h' _ hd hd₁ hh =>
    have hheader : mintBufferHeader d₁ = mintBufferHeader d := by
      rw [hd₁]
      exact mintBufferHeader_resized (reinitLen_bounds hd _).1 hd
    rw [hheader] at hh
    obtain ⟨hunlocked, hh'⟩ := reinit_ok.mp hh
    refine ⟨hunlocked, ?_⟩
    change erased d₁ h' = _
    rw [hh', hd₁, reinited]

structure Cleared (c : Crypto) (d : Bytes) : Prop where
  nothing : groupsOf d ≠ 0 → Uploaded c d fun _ => none
  init : initializedOf d = 0
  unlocked : (mintBufferHeader d).isLocked = 0

theorem Performs.cleared (h : Performs c signs (.reinit count) d d') : Cleared c d' := by
  have hd := h.long
  obtain ⟨hunlocked, heq⟩ := Performs.reinit_eq h
  rw [heq]
  have hheader := reinited_header hd count
  have hinit : initializedOf (reinited d count) = 0 := by
    rw [initializedOf, hheader]
    rfl
  refine ⟨?_, hinit, by rw [hheader]; exact hunlocked⟩
  intro hne
  have hgroups : groupsOf (reinited d count) = groupCount count.toNat := by
    rw [groupsOf, hheader] at hne ⊢
    exact reinit_groups hne
  have hcount : countOf (reinited d count) = count.toNat := by
    rw [countOf, hheader]
    rfl
  refine ⟨?_, ?_, ?_, ?_⟩
  · rw [hgroups, hcount]
  · rw [reinited_length hd count, hgroups, hcount]
    exact (reinitLen_bounds hd _).2
  · intro g x _ hx
    cases hx
  · rw [hinit]
    exact (Finset.sum_eq_zero fun _ _ => rfl).symm

end Reinit

def inserted (c : Crypto) (d : Bytes) (g : ℕ) (x : Bytes) : Bytes :=
  withHeader (splice (splice d (72 + 32 * g) (c.sha256 x).toList)
      (72 + 32 * groupsOf d + 960 * g) x)
    { mintBufferHeader d with
      pendingMintsInitialized :=
        (mintBufferHeader d).pendingMintsInitialized + UInt16.ofNat (x.length / 40) }

structure Insertable (d : Bytes) (g : ℕ) (x : Bytes) : Prop where
  long : 72 ≤ d.length
  unlocked : (mintBufferHeader d).isLocked = 0
  group : g < groupsOf d
  whole : x.length % 40 = 0
  small : x.length ≤ 960
  inside : 72 + 32 * groupsOf d + 960 * g + x.length ≤ d.length
  slot : 72 + 32 * g + 32 ≤ d.length
  free : slice d (72 + 32 * g) 32 = List.replicate 32 0

theorem firstRecord_toNat {groupIndex : UInt16} (h : groupIndex.toNat < groupCount 65535) :
    (groupIndex * 24).toNat = groupIndex.toNat * 24 := by
  have hbound : groupCount 65535 = 2731 := rfl
  rw [UInt16.toNat_mul, Nat.mod_eq_of_lt]
  · rfl
  · change groupIndex.toNat * 24 < 65536
    omega

theorem groupCount_mono {m n : ℕ} (h : m ≤ n) : groupCount m ≤ groupCount n :=
  Nat.div_le_div_right (Nat.add_le_add_right h 23)

theorem groupHashOffset_eq (groupIndex : UInt16) :
    getNthGroupHashOffset groupIndex = 72 + 32 * groupIndex.toNat := by
  change 72 + groupIndex.toNat * 32 = _
  omega

theorem pendingMintOffset_eq {groupIndex : UInt16} (h : groupIndex.toNat < groupCount 65535) :
    PendingMintBuffer.getNthPendingMintOffset (mintBufferHeader d)
      (groupIndex * MAX_PENDING_MINTS_PER_GROUP_U16) =
      72 + 32 * groupsOf d + 960 * groupIndex.toNat := by
  change 72 + groupsOf d * 32 + (groupIndex * 24).toNat * 40 = _
  rw [firstRecord_toNat h]
  omega

theorem insertPendingMints_iff {groupIndex : UInt16}
    (hgroups : groupsOf d = groupCount (countOf d)) :
    insertPendingMints c d groupIndex x = .ok d' ↔
      Insertable d groupIndex.toNat x ∧ d' = inserted c d groupIndex.toNat x := by
  have hfew (hg : groupIndex.toNat < groupsOf d) : groupIndex.toNat < groupCount 65535 := by
    have hcount : countOf d < 65536 := (mintBufferHeader d).pendingMintsCount.toNat_lt
    have hmono := groupCount_mono (Nat.le_of_lt_succ hcount)
    omega
  have hhash : (c.sha256 x).toList.length = 32 := Vector.length_toList
  have hsame (hslot : 72 + 32 * groupIndex.toNat + 32 ≤ d.length)
      (hinside : 72 + 32 * groupsOf d + 960 * groupIndex.toNat + x.length ≤ d.length) :
      HEADER_SIZE ≤ d.length ∧
      (splice (splice d (72 + 32 * groupIndex.toNat) (c.sha256 x).toList)
        (72 + 32 * groupsOf d + 960 * groupIndex.toNat) x).length = d.length ∧
      mintBufferHeader (splice (splice d (72 + 32 * groupIndex.toNat) (c.sha256 x).toList)
        (72 + 32 * groupsOf d + 960 * groupIndex.toNat) x) = mintBufferHeader d := by
    have hlen : (splice d (72 + 32 * groupIndex.toNat) (c.sha256 x).toList).length = d.length :=
      splice_length (by rw [hhash]; exact hslot)
    refine ⟨Nat.le_trans (by change 72 ≤ _; omega) hslot, ?_, ?_⟩
    · rw [splice_length (by rw [hlen]; exact hinside), hlen]
    · rw [mintBufferHeader_splice (by omega) (by rw [hlen]; exact hinside),
        mintBufferHeader_splice (by omega) (by rw [hhash]; exact hslot)]
  simp only [insertPendingMints, bind_ok, ensure_ok, exists_const, updateHeader_ok, pure_ok]
  constructor
  · rintro ⟨hd, hl, hg, hsmall, hwhole, ⟨hinside, hslot⟩, hfree, -, h', hh', hd'⟩
    have hg : groupIndex.toNat < groupsOf d := UInt16.lt_iff_toNat_lt.mp hg
    rw [pendingMintOffset_eq (hfew hg)] at hinside hh' hd'
    rw [groupHashOffset_eq] at hslot hfree hh' hd'
    rw [(hsame hslot hinside).2.2] at hh'
    refine ⟨⟨hd, hl, hg, hwhole, hsmall, hinside, hslot, hfree⟩, ?_⟩
    rw [hd', ← hh']
    rfl
  · rintro ⟨hi, heq⟩
    obtain ⟨hd, hlen, hheader⟩ := hsame hi.slot hi.inside
    rw [pendingMintOffset_eq (hfew hi.group), groupHashOffset_eq]
    refine ⟨hd, hi.unlocked, UInt16.lt_iff_toNat_lt.mpr hi.group, hi.small, hi.whole,
      ⟨hi.inside, hi.slot⟩, hi.free, by rw [hlen]; exact hd, _, rfl, ?_⟩
    rw [hheader, heq]
    rfl

section Insert

variable (hi : Insertable d g x)

include hi

theorem hash_spliced_length :
    (splice d (72 + 32 * g) (c.sha256 x).toList).length = d.length := by
  refine splice_length ?_
  rw [Vector.length_toList]
  exact hi.slot

theorem spliced_length : (splice (splice d (72 + 32 * g) (c.sha256 x).toList)
    (72 + 32 * groupsOf d + 960 * g) x).length = d.length := by
  have hlen := hash_spliced_length (c := c) hi
  rw [splice_length (by rw [hlen]; exact hi.inside), hlen]

theorem inserted_length : (inserted c d g x).length = d.length := by
  rw [inserted, withHeader_length (by rw [spliced_length hi]; exact hi.long), spliced_length hi]

theorem inserted_header : mintBufferHeader (inserted c d g x) =
    { mintBufferHeader d with
      pendingMintsInitialized :=
        (mintBufferHeader d).pendingMintsInitialized + UInt16.ofNat (x.length / 40) } :=
  mintBufferHeader_withHeader (by rw [spliced_length hi]; exact hi.long)

/-- Behind the header, only the hash and the mints of the group change. -/
theorem slice_inserted {o k : ℕ} (ho : 72 ≤ o) : slice (inserted c d g x) o k =
    slice (splice (splice d (72 + 32 * g) (c.sha256 x).toList)
      (72 + 32 * groupsOf d + 960 * g) x) o k :=
  slice_withHeader (by rw [spliced_length hi]; exact hi.long) ho

theorem slice_inserted_far {o k : ℕ} (ho : 72 ≤ o)
    (hhash : o + k ≤ 72 + 32 * g ∨ 72 + 32 * g + 32 ≤ o)
    (hmints : o + k ≤ 72 + 32 * groupsOf d + 960 * g ∨
      72 + 32 * groupsOf d + 960 * g + x.length ≤ o) :
    slice (inserted c d g x) o k = slice d o k := by
  have hfit : 72 + 32 * g + (c.sha256 x).toList.length ≤ d.length := by
    rw [Vector.length_toList]
    exact hi.slot
  rw [slice_inserted hi ho,
    slice_splice_disjoint (by rw [hash_spliced_length hi]; exact hi.inside) hmints,
    slice_splice_disjoint hfit (by rw [Vector.length_toList]; exact hhash)]

theorem slice_inserted_hash :
    slice (inserted c d g x) (72 + 32 * g) 32 = (c.sha256 x).toList := by
  have hgroup := hi.group
  rw [slice_inserted hi (by omega), slice_splice_disjoint
    (by rw [hash_spliced_length hi]; exact hi.inside) (.inl (by omega)),
    slice_splice_self Vector.length_toList hi.slot]

theorem slice_inserted_records :
    slice (inserted c d g x) (72 + 32 * groupsOf d + 960 * g) x.length = x := by
  rw [slice_inserted hi (by omega),
    slice_splice_self rfl (by rw [hash_spliced_length hi]; exact hi.inside)]

theorem inserted_self (hnonzero : c.sha256 x ≠ zeroBytes) :
    Inserted c (inserted c d g x) (groupsOf d) g x := by
  have hlen := inserted_length (c := c) hi
  refine ⟨hi.whole, hi.small, hnonzero, ?_, slice_inserted_hash hi, ?_, slice_inserted_records hi⟩
  · rw [hlen]
    exact hi.slot
  · rw [hlen]
    exact hi.inside

theorem Inserted.other {g' : ℕ} {y : Bytes} (h : Inserted c d (groupsOf d) g' y)
    (hg' : g' < groupsOf d) (hne : g' ≠ g) :
    Inserted c (inserted c d g x) (groupsOf d) g' y := by
  have hgroup := hi.group
  have hsmall := hi.small
  have hsmall' := h.small
  have hlen := inserted_length (c := c) hi
  refine ⟨h.whole, h.small, h.nonzero, ?_, ?_, ?_, ?_⟩
  · rw [hlen]
    exact h.slot
  · rw [slice_inserted_far hi (by omega) (by omega) (by omega)]
    exact h.hash
  · rw [hlen]
    exact h.inside
  · rw [slice_inserted_far hi (by omega) (by omega) (by omega)]
    exact h.records

end Insert

theorem Uploaded.up_eq_none (h : Uploaded c d up) (hi : Insertable d g x) : up g = none := by
  cases hup : up g with
  | none => rfl
  | some y =>
    have hins := h.each g y hi.group hup
    have hzero : (c.sha256 y).toList = zeroBytes.toList := by
      rw [← hins.hash, hi.free]
      rfl
    exact absurd (Vector.toList_inj.mp hzero) hins.nonzero

theorem Uploaded.insert (h : Uploaded c d up) (hi : Insertable d g x)
    (hnonzero : c.sha256 x ≠ zeroBytes) :
    Uploaded c (inserted c d g x) (Function.update up g (some x)) := by
  have hheader := inserted_header (c := c) hi
  have hgroups : groupsOf (inserted c d g x) = groupsOf d := by
    rw [groupsOf, hheader]
    rfl
  have hcount : countOf (inserted c d g x) = countOf d := by
    rw [countOf, hheader]
    rfl
  have hshort : (inserted c d g x).length ≤ 72 + 32 * groupsOf d + 40 * countOf d := by
    rw [inserted_length hi]
    exact h.short
  have heach : ∀ g' y, g' < groupsOf d → Function.update up g (some x) g' = some y →
      Inserted c (inserted c d g x) (groupsOf d) g' y := by
    intro g' y hg' hy
    by_cases hne : g' = g
    · subst hne
      rw [Function.update_self] at hy
      cases hy
      exact inserted_self hi hnonzero
    · rw [Function.update_of_ne hne] at hy
      exact (h.each g' y hg' hy).other hi hg' hne
  have hsize : ∀ i, size (Function.update up g (some x)) i =
      size up i + if i = g then x.length / 40 else 0 := by
    intro i
    by_cases hne : i = g
    · subst hne
      rw [size, Function.update_self, size, h.up_eq_none hi, if_pos rfl, Nat.zero_add]
    · rw [size, Function.update_of_ne hne, if_neg hne, Nat.add_zero, size]
  have hsum : ∑ i ∈ Finset.range (groupsOf d), size (Function.update up g (some x)) i =
      initializedOf d + x.length / 40 := by
    rw [Finset.sum_congr rfl fun i _ => hsize i, Finset.sum_add_distrib, ← h.sum,
      Finset.sum_ite_eq', if_pos (Finset.mem_range.mpr hi.group)]
  refine ⟨?_, ?_, ?_, ?_⟩
  · rw [hgroups, hcount]
    exact h.groups
  · rw [hgroups, hcount]
    exact hshort
  · rw [hgroups]
    exact heach
  · have hle := sum_size_le h.groups hshort heach
    have hlt : countOf d < 65536 := (mintBufferHeader d).pendingMintsCount.toNat_lt
    rw [hgroups, hsum, initializedOf, hheader]
    rw [hsum] at hle
    change ((mintBufferHeader d).pendingMintsInitialized + UInt16.ofNat (x.length / 40)).toNat = _
    rw [UInt16.toNat_add, UInt16.toNat_ofNat', Nat.add_mod_mod]
    exact Nat.mod_eq_of_lt (Nat.lt_of_le_of_lt hle hlt)

theorem withHeader_uploaded {h' : Header} (h : Uploaded c d up) (hd : 72 ≤ d.length)
    (hgroups : h'.pendingMintGroupsCount.toNat = groupsOf d)
    (hcount : h'.pendingMintsCount.toNat = countOf d)
    (hinit : h'.pendingMintsInitialized.toNat = initializedOf d) :
    Uploaded c (withHeader d h') up := by
  have hheader := mintBufferHeader_withHeader (h := h') hd
  refine h.frame ?_ ?_ ?_ ?_ ?_ ?_
  · rw [groupsOf, hheader, hgroups]
  · rw [countOf, hheader, hcount]
  · rw [initializedOf, hheader, hinit]
  · rw [withHeader_length hd]
  · rw [withHeader_length hd]
    exact h.short
  · intro o k ho _
    exact slice_withHeader hd ho

theorem Good.locked (h : Good c d) (hd : 72 ≤ d.length) (hfull : initializedOf d = countOf d)
    {flag : UInt8} : Good c (withHeader d { mintBufferHeader d with isLocked := flag }) := by
  have hheader := mintBufferHeader_withHeader (h := { mintBufferHeader d with isLocked := flag }) hd
  constructor
  · intro hne
    rw [groupsOf, hheader] at hne
    obtain ⟨up, hup⟩ := h.filled hne
    exact ⟨up, withHeader_uploaded hup hd rfl rfl rfl⟩
  · intro _
    rw [initializedOf, countOf, hheader]
    exact hfull

def BufferOp.uploads (up : ℕ → Option Bytes) : BufferOp → ℕ → Option Bytes
  | .reinit _ => fun _ => none
  | .insert g x => Function.update up g.toNat (some x)
  | _ => up

theorem insert_uploads {d₁ : Bytes} {groupIndex : UInt16} (hup : groupsOf d ≠ 0 → Uploaded c d up)
    (hd : 72 ≤ d.length) (hd₁ : d₁ = grown d (Header.getTotalBufferSize (mintBufferHeader d)))
    (hi : insertPendingMints c d₁ groupIndex x = .ok d') :
    Uploaded c d₁ up ∧ Insertable d₁ groupIndex.toNat x ∧
      d' = inserted c d₁ groupIndex.toNat x ∧ groupsOf d₁ = groupsOf d := by
  have hheader : mintBufferHeader d₁ = mintBufferHeader d := by
    rw [hd₁]
    exact mintBufferHeader_grown _ hd
  have hne : groupsOf d ≠ 0 := by
    simp only [insertPendingMints, bind_ok, ensure_ok, exists_const] at hi
    have hgroup := UInt16.lt_iff_toNat_lt.mp hi.2.2.1
    rw [hheader] at hgroup
    exact Nat.ne_of_gt (Nat.lt_of_le_of_lt (Nat.zero_le _) hgroup)
  have hup₁ : Uploaded c d₁ up := hd₁ ▸ (hup hne).grown hd
  obtain ⟨hins, heq⟩ := (insertPendingMints_iff hup₁.groups).mp hi
  exact ⟨hup₁, hins, heq, by rw [groupsOf, hheader]; rfl⟩

/-- Every instruction of the mint buffer program keeps the account of the uploads right. -/
theorem Performs.uploaded {op : BufferOp}
    (hnonzero : ∀ g x, op = .insert g x → c.sha256 x ≠ zeroBytes)
    (h : Performs c signs op d d') (hup : groupsOf d ≠ 0 → Uploaded c d up)
    (hne : groupsOf d' ≠ 0) : Uploaded c d' (BufferOp.uploads up op) := by
  have hperforms := h
  cases h with
  | setup hd hh =>
    obtain ⟨-, rfl⟩ := setup_eq_ok.mp hh
    rw [groupsOf, mintBufferHeader_withHeader hd] at hne
    exact absurd rfl hne
  | reinit => exact (Performs.cleared hperforms).nothing hne
  | resize hd hl ht =>
    rw [groupsOf, mintBufferHeader_grown _ hd] at hne
    exact (hup hne).grown hd
  | @insert _ d₁ _ groupIndex x hd hd₁ hi =>
    obtain ⟨hup₁, hins, heq, -⟩ := insert_uploads hup hd hd₁ hi
    rw [heq]
    exact hup₁.insert hins (hnonzero _ _ rfl)
  | lock k hk hd hh =>
    obtain ⟨-, -, -, rfl⟩ := lock_ok.mp hh
    rw [groupsOf, mintBufferHeader_withHeader hd] at hne
    exact withHeader_uploaded (hup hne) hd rfl rfl rfl
  | unlock k hk hd hh =>
    obtain ⟨-, -, rfl⟩ := unlock_ok.mp hh
    rw [groupsOf, mintBufferHeader_withHeader hd] at hne
    exact absurd rfl hne

/-- Only `lock` leaves a locked buffer; it checks the counter and the signature of the locker. -/
theorem Performs.locked_after {op : BufferOp} (h : Performs c signs op d d')
    (hup : groupsOf d ≠ 0 → Uploaded c d up) (hlocked : (mintBufferHeader d').isLocked ≠ 0) :
    op = .lock ∧ initializedOf d' = countOf d' ∧
      signs (mintBufferHeader d').authorizedLockerPublicKey := by
  have hperforms := h
  cases h with
  | setup hd hh =>
    obtain ⟨-, rfl⟩ := setup_eq_ok.mp hh
    rw [mintBufferHeader_withHeader hd] at hlocked
    exact absurd rfl hlocked
  | reinit => exact absurd (Performs.cleared hperforms).unlocked hlocked
  | resize hd hl ht =>
    rw [mintBufferHeader_grown _ hd] at hlocked
    exact absurd hl hlocked
  | insert hd hd₁ hi =>
    obtain ⟨-, hins, heq, -⟩ := insert_uploads hup hd hd₁ hi
    rw [heq, inserted_header hins] at hlocked
    exact absurd hins.unlocked hlocked
  | lock k hk hd hh =>
    obtain ⟨-, hfull, rfl, rfl⟩ := lock_ok.mp hh
    have hheader := mintBufferHeader_withHeader
      (h := { mintBufferHeader d with isLocked := 1 }) hd
    rw [initializedOf, countOf, hheader]
    exact ⟨rfl, congrArg UInt16.toNat hfull, hk⟩
  | unlock k hk hd hh =>
    obtain ⟨-, -, rfl⟩ := unlock_ok.mp hh
    rw [mintBufferHeader_withHeader hd] at hlocked
    exact absurd rfl hlocked

theorem BufferStep.good (hnonzero : c.sha256 upload ≠ zeroBytes)
    (h : BufferStep c signs upload d d') (hgood : Good c d) : Good c d' := by
  obtain ⟨op, hop, hupload⟩ := h
  obtain ⟨up, hup⟩ := hgood.uploads
  constructor
  · intro hne
    refine ⟨_, Performs.uploaded ?_ hop hup hne⟩
    intro g x hx
    rw [hupload g x hx]
    exact hnonzero
  · intro hlocked
    exact (Performs.locked_after hop hup hlocked).2.1

end Steps

end UploadedGroups
