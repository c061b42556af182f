import PsyDogeBridge.MerkleProofs

/-! The root of a Merkle path whose siblings lie one after the other in a byte buffer. -/
namespace InMemoryRoot

open PodLayout CheckedSteps BridgeData AppendTree MerkleTree AppendHistory MerkleProofs
  BlockTransactions

inductive RootPanic where
  | lengthAssertion
  | sliceOutOfRange
  | indexAssertion
  deriving DecidableEq, Repr

section Functions

variable (c : Crypto)

def inMemoryLevel (siblings : Bytes) :
    QHash256 × UInt64 → ℕ → Except RootPanic (QHash256 × UInt64)
  | (current, index), i => do
    ensure ((i + 1) * 32 ≤ siblings.length) .sliceOutOfRange
    let sibling := slice siblings (i * 32) 32
    pure (if index &&& 1 = 0 then c.sha256 (current.toList ++ sibling)
      else c.sha256 (sibling ++ current.toList), index >>> 1)

def computeSha256MerkleRootInMemory (value : QHash256) (siblings : Bytes) (index : UInt64)
    (siblingsCount : ℕ) : Except RootPanic QHash256 := do
  ensure (siblings.length ≤ 32 * siblingsCount) .lengthAssertion
  let (current, index) ← (List.range siblingsCount).foldlM (inMemoryLevel c siblings) (value, index)
  ensure (index = 0) .indexAssertion
  pure current

/-- `hash_impl_sha256_compute_merkle_root` with its first assertion, which always holds for the tree
of height 32. -/
def hashImplSha256ComputeMerkleRoot (value : QHash256) (index : UInt64) (siblings : List QHash256) :
    Option QHash256 :=
  if siblings.length ≤ 64 then computeMerkleRoot c value index siblings else none

end Functions

variable {c : Crypto} {value : QHash256} {index : UInt64} {siblings : Bytes} {k : ℕ}

theorem inMemoryLevel_short {st : QHash256 × UInt64} {i : ℕ}
    (h : ¬ (i + 1) * 32 ≤ siblings.length) :
    inMemoryLevel c siblings st i = .error .sliceOutOfRange := by
  rw [inMemoryLevel, ensure, if_neg h]
  rfl

theorem inMemoryLevel_long {st : QHash256 × UInt64} {i : ℕ} (h : (i + 1) * 32 ≤ siblings.length) :
    inMemoryLevel c siblings st i =
      .ok (if st.2 &&& 1 = 0 then hashTwoToOne c st.1 (hashPod.decode (slice siblings (i * 32) 32))
        else hashTwoToOne c (hashPod.decode (slice siblings (i * 32) 32)) st.1, st.2 >>> 1) := by
  have hlength : (slice siblings (i * 32) 32).length = 32 := slice_length (by omega)
  have hbytes : (hashPod.decode (slice siblings (i * 32) 32)).toList =
      slice siblings (i * 32) 32 := by
    rw [← Pod.bytes_encode, hashPod.encode_decode _ hlength]
  rw [inMemoryLevel, ensure, if_pos h, hashTwoToOne, hashTwoToOne, hbytes]
  rfl

theorem foldlM_long (is : List ℕ) (h : ∀ i ∈ is, (i + 1) * 32 ≤ siblings.length)
    (st : QHash256 × UInt64) :
    is.foldlM (inMemoryLevel c siblings) st =
      .ok ((is.map fun i => hashPod.decode (slice siblings (i * 32) 32)).foldl
        (fun (cur, idx) sibling => (if idx &&& 1 = 0 then hashTwoToOne c cur sibling
          else hashTwoToOne c sibling cur, idx >>> 1)) st) := by
  induction is generalizing st with
  | nil => rfl
  | cons i is ih =>
    rw [List.foldlM_cons, inMemoryLevel_long (h i List.mem_cons_self), List.map_cons,
      List.foldl_cons]
    exact ih (fun j hj => h j (List.mem_cons_of_mem _ hj)) _

theorem foldlM_short (is : List ℕ) (h : ∃ i ∈ is, ¬ (i + 1) * 32 ≤ siblings.length)
    (st : QHash256 × UInt64) :
    is.foldlM (inMemoryLevel c siblings) st = .error .sliceOutOfRange := by
  induction is generalizing st with
  | nil =>
    obtain ⟨i, hi, -⟩ := h
    cases hi
  | cons i is ih =>
    rw [List.foldlM_cons]
    by_cases hin : (i + 1) * 32 ≤ siblings.length
    · rw [inMemoryLevel_long hin]
      obtain ⟨j, hj, hout⟩ := h
      rcases List.mem_cons.mp hj with rfl | hj
      · exact absurd hin hout
      · exact ih ⟨j, hj, hout⟩ _
    · rw [inMemoryLevel_short hin]
      rfl

theorem inMemory_exact (hindex : index.toNat < 2 ^ k) (hlen : siblings.length = 32 * k) :
    computeSha256MerkleRootInMemory c value siblings index k =
      .ok (climb (hashTwoToOne c) value index.toNat (hashesOf siblings k)) := by
  obtain ⟨rest, hrest, hfold⟩ := foldl_climb (c := c) value index (hashesOf siblings k)
  have hzero : rest = 0 := by
    rw [← UInt64.toNat_inj, hrest, hashesOf_length]
    exact Nat.div_eq_of_lt hindex
  have hin : ∀ i ∈ List.range k, (i + 1) * 32 ≤ siblings.length := by
    intro i hi
    have hlt := List.mem_range.mp hi
    omega
  have hloop : (List.range k).foldlM (inMemoryLevel c siblings) (value, index) =
      .ok (climb (hashTwoToOne c) value index.toNat (hashesOf siblings k), rest) := by
    rw [foldlM_long _ hin, ← hfold, hashesOf]
  simp only [computeSha256MerkleRootInMemory, bind_ok, ensure_ok, exists_const, pure_ok]
  exact ⟨hlen.le, _, hloop, hzero, rfl⟩

theorem inMemory_long (hlen : 32 * k < siblings.length) :
    computeSha256MerkleRootInMemory c value siblings index k = .error .lengthAssertion := by
  rw [computeSha256MerkleRootInMemory, ensure, if_neg (by omega)]
  rfl

/-- In a buffer that is too short the first slice beyond its end panics. -/
theorem inMemory_short (hlen : siblings.length < 32 * k) :
    computeSha256MerkleRootInMemory c value siblings index k = .error .sliceOutOfRange := by
  have hout : ∃ i ∈ List.range k, ¬ (i + 1) * 32 ≤ siblings.length :=
    ⟨k - 1, List.mem_range.mpr (by omega), by omega⟩
  rw [computeSha256MerkleRootInMemory, ensure, if_pos hlen.le]
  change ((List.range k).foldlM (inMemoryLevel c siblings) (value, index) >>= _) = _
  rw [foldlM_short _ hout]
  rfl

/-- On a buffer of the exact length, and only there: the three functions agree if it is long enough,
and the length assertion fails if it is too short. -/
theorem in_memory_root_iff (c : Crypto) (value : QHash256) (k : ℕ) (hk : k ≤ 64) (index : UInt64)
    (hindex : index.toNat < 2 ^ k) (siblings : Bytes) :
    ((32 * k ≤ siblings.length →
        ∃ root, computeSha256MerkleRootInMemory c value siblings index k = .ok root ∧
          hashImplSha256ComputeMerkleRoot c value index (hashesOf siblings k) = some root ∧
          computeRootMerkleProofGeneric (hashTwoToOne c) value index (hashesOf siblings k) = root) ∧
      (siblings.length < 32 * k →
        computeSha256MerkleRootInMemory c value siblings index k = .error .lengthAssertion)) ↔
      siblings.length = 32 * k := by
  constructor
  · rintro ⟨hlong, hshort⟩
    rcases Nat.lt_trichotomy siblings.length (32 * k) with hlt | heq | hgt
    · have hpanic := hshort hlt
      rw [inMemory_short hlt] at hpanic
      cases hpanic
    · exact heq
    · obtain ⟨root, hroot, -⟩ := hlong hgt.le
      rw [inMemory_long hgt] at hroot
      cases hroot
  · intro hlen
    refine ⟨fun _ => ⟨_, inMemory_exact hindex hlen, ?_, ?_⟩, fun hlt => absurd hlen hlt.ne⟩
    · rw [hashImplSha256ComputeMerkleRoot, hashesOf_length, if_pos hk, computeMerkleRoot_some,
        hashesOf_length]
      exact ⟨hindex, rfl⟩
    · exact computeRootMerkleProofGeneric_eq _ _ _

/-- One sibling in a buffer of 32 bytes. -/
theorem one_sibling_root :
    ∃ root, computeSha256MerkleRootInMemory shaOnly zeroBytes (List.replicate 32 0) 1 1 = .ok root ∧
      hashImplSha256ComputeMerkleRoot shaOnly zeroBytes 1 (hashesOf (List.replicate 32 0) 1) =
        some root ∧
      computeRootMerkleProofGeneric (hashTwoToOne shaOnly) zeroBytes 1
        (hashesOf (List.replicate 32 0) 1) = root :=
  ((in_memory_root_iff shaOnly zeroBytes 1 (by decide) 1 (by decide) (List.replicate 32 0)).mpr
    rfl).1 (by decide)

/-- With one byte to spare the assertion fails, and without any byte it is a slice that panics. -/
theorem one_sibling_panics :
    computeSha256MerkleRootInMemory shaOnly zeroBytes (List.replicate 33 0) 0 1 =
        .error .lengthAssertion ∧
      computeSha256MerkleRootInMemory shaOnly zeroBytes [] 0 1 = .error .sliceOutOfRange :=
  ⟨inMemory_long (by decide), inMemory_short (by decide)⟩

end InMemoryRoot
