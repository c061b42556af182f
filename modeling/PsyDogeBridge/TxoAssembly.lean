import PsyDogeBridge.FetchedBlocks
import PsyDogeBridge.TxoUpload

/-! When the history client puts the outputs of a block together from the writes to the output
buffer. The writes come from a hash map, in no particular order. -/
namespace TxoAssembly

open PodLayout HistorySync OperatorHistory BufferReconstruction FetchedBlocks TxoUpload

section Words

variable {raw raw' : Bytes}

def words (raw : Bytes) : List UInt32 := (chunksExact 4 raw).map Pod.u32.decode

theorem words_length : (words raw).length = raw.length / 4 := by
  rw [words, List.length_map, chunksExact, List.length_map, List.length_range]

theorem words_bytes : (words raw).flatMap Pod.u32.encode = slice raw 0 (raw.length / 4 * 4) := by
  have hlen : (slice raw 0 (raw.length / 4 * 4)).length = raw.length / 4 * 4 :=
    slice_length (by omega)
  rw [← Pod.flatMap_decode_block Pod.u32 hlen, words, chunksExact, List.map_map]
  congr 1
  apply List.map_congr_left
  intro i hi
  have hlt := List.mem_range.mp hi
  refine congrArg Pod.u32.decode ?_
  change slice raw (i * 4) 4 = slice (slice raw 0 (raw.length / 4 * 4)) (i * 4) 4
  rw [slice_slice (by omega), Nat.zero_add]

/-- The bytes behind the last whole word do not count. -/
theorem words_eq_iff (hlen : raw'.length = raw.length) :
    words raw' = words raw ↔ ∀ i < raw.length / 4 * 4, raw'[i]? = raw[i]? := by
  constructor
  · intro h i hi
    have hbytes := congrArg (List.flatMap Pod.u32.encode) h
    rw [words_bytes, words_bytes, hlen] at hbytes
    have hbyte := congrArg (fun l : Bytes => l[i]?) hbytes
    simpa only [slice_getElem?, if_pos hi, Nat.zero_add] using hbyte
  · intro h
    rw [words, words, chunksExact, chunksExact, hlen]
    congr 1
    apply List.map_congr_left
    intro i hi
    have hlt := List.mem_range.mp hi
    apply List.ext_getElem?
    intro j
    rw [slice_getElem?, slice_getElem?]
    split
    · exact h _ (by omega)
    · rfl

theorem words_serializeAll (builder : TxoBufferBuilder) :
    words builder.serializeAll = builder.indices := by
  apply List.ext_getElem
  · rw [words_length, serializeAll_length, Nat.mul_div_cancel _ (by decide)]
  · intro i _ hi
    have hblock := Pod.block_flatMap Pod.u32 builder.indices i hi
    simp only [words, chunksExact, List.getElem_map, List.getElem_range]
    rw [show slice builder.serializeAll (i * 4) 4 = _ from hblock, Pod.decode_encode]

end Words

section Assembly

variable {writes : AList fun _ : UInt32 => Bytes} {size : UInt32} {indices : List UInt32}
  {order order' : List Write → List Write}

/-- No write starts behind the end, and no two write different bytes to one place of a whole
word. -/
structure Consistent (writes : AList fun _ : UInt32 => Bytes) (size : UInt32) : Prop where
  inside : ∀ e ∈ writes.entries, e.1.toNat ≤ size.toNat
  agree : ∀ e ∈ writes.entries, ∀ e' ∈ writes.entries, ∀ i < size.toNat / 4 * 4, ∀ a b,
    byteAt e i = some a → byteAt e' i = some b → a = b

theorem assembleTxoIndices_some (hsome : ¬(writes.entries = [] ∨ size = 0)) :
    assembleTxoIndices order writes size = some indices ↔
      ∃ raw, (order writes.entries).foldlM copyWrite (List.replicate size.toNat 0) = some raw ∧
        words raw = indices := by
  rw [assembleTxoIndices, if_neg hsome, Option.map_eq_some_iff]
  rfl

theorem assembleTxoIndices_length (h : assembleTxoIndices order writes size = some indices) :
    indices.length ≤ size.toNat / 4 := by
  by_cases hnone : writes.entries = [] ∨ size = 0
  · rw [assembleTxoIndices, if_pos hnone] at h
    cases h
    exact Nat.zero_le _
  · obtain ⟨raw, hfold, rfl⟩ := (assembleTxoIndices_some hnone).mp h
    rw [words_length, (foldlM_getElem? hfold).1, List.length_replicate]

theorem same_bytes (hsome : ¬(writes.entries = [] ∨ size = 0))
    (h : assembleTxoIndices order writes size = some indices)
    (h' : assembleTxoIndices order' writes size = some indices) {i : ℕ}
    (hi : i < size.toNat / 4 * 4) :
    byteAfter (order writes.entries) i (some 0) = byteAfter (order' writes.entries) i (some 0) := by
  obtain ⟨raw, hfold, hwords⟩ := (assembleTxoIndices_some hsome).mp h
  obtain ⟨raw', hfold', hwords'⟩ := (assembleTxoIndices_some hsome).mp h'
  obtain ⟨hlen, hbytes⟩ := foldlM_getElem? hfold
  obtain ⟨hlen', hbytes'⟩ := foldlM_getElem? hfold'
  rw [List.length_replicate] at hlen hlen' hbytes hbytes'
  have hzero : (List.replicate size.toNat (0 : UInt8))[i]? = some 0 :=
    List.getElem?_replicate_of_lt (by omega)
  have hsame := (words_eq_iff (hlen.trans hlen'.symm)).mp (hwords.trans hwords'.symm) i (by omega)
  rwa [hbytes i (by omega), hbytes' i (by omega), hzero] at hsame

/-- Each of two writes can be the one that comes last. -/
theorem consistent_of_assembled (hsome : ¬(writes.entries = [] ∨ size = 0))
    (h : ∀ order : List Write → List Write, (order writes.entries).Perm writes.entries →
      assembleTxoIndices order writes size = some indices) : Consistent writes size := by
  have hlast : ∀ e ∈ writes.entries, (writes.entries.erase e ++ [e]).Perm writes.entries :=
    fun e he => List.perm_append_comm.trans (List.perm_cons_erase he).symm
  refine ⟨?_, fun e he e' he' i hi a b ha hb => ?_⟩
  · have hid : (assembleTxoIndices id writes size).isSome := by
      rw [h id (List.Perm.refl _)]
      rfl
    exact fun e he => (assembleTxoIndices_isSome List.Perm.refl writes size).mp hid
      (not_or.mp hsome).2 e.1 (List.mem_map_of_mem he)
  · have hbyte := same_bytes hsome (h (fun es => es.erase e ++ [e]) (hlast e he))
      (h (fun es => es.erase e' ++ [e']) (hlast e' he')) hi
    rw [byteAfter_last (Option.isSome_of_mem ha), byteAfter_last (Option.isSome_of_mem hb), ha,
      hb] at hbyte
    exact Option.some.inj hbyte

theorem Consistent.assembled (h : Consistent writes size)
    (hsome : ¬(writes.entries = [] ∨ size = 0)) :
    ∃ indices, ∀ order : List Write → List Write, (order writes.entries).Perm writes.entries →
      assembleTxoIndices order writes size = some indices := by
  have hcopied : ∀ ws : List Write, ws.Perm writes.entries →
      ∃ raw, ws.foldlM copyWrite (List.replicate size.toNat 0) = some raw := by
    intro ws hws
    refine Option.isSome_iff_exists.mp (foldlM_copyWrite.mpr fun e he => ?_)
    rw [List.length_replicate]
    exact h.inside e (hws.mem_iff.mp he)
  obtain ⟨raw, hraw⟩ := hcopied _ (List.Perm.refl _)
  obtain ⟨hlen, hbytes⟩ := foldlM_getElem? hraw
  refine ⟨words raw, fun order horder => (assembleTxoIndices_some hsome).mpr ?_⟩
  obtain ⟨raw', hraw'⟩ := hcopied _ horder
  obtain ⟨hlen', hbytes'⟩ := foldlM_getElem? hraw'
  refine ⟨raw', hraw', (words_eq_iff (hlen'.trans hlen.symm)).mpr fun i hi => ?_⟩
  rw [List.length_replicate] at hlen hbytes hbytes'
  rw [hbytes i (by omega), hbytes' i (by omega)]
  refine (byteAfter_perm horder.symm (fun e he e' he' => ?_) _).symm
  exact h.agree e he e' he' i (by omega)

/-- The outputs are assembled, and in the same way in every order of the map, exactly if there is
nothing to assemble or the writes are consistent. -/
theorem assembled_alike_iff :
    (∃ indices, ∀ order : List Write → List Write, (order writes.entries).Perm writes.entries →
        assembleTxoIndices order writes size = some indices) ↔
      writes.entries = [] ∨ size = 0 ∨ Consistent writes size := by
  rw [← or_assoc]
  by_cases hnone : writes.entries = [] ∨ size = 0
  · refine ⟨fun _ => .inl hnone, fun _ => ⟨[], fun order _ => ?_⟩⟩
    rw [assembleTxoIndices, if_pos hnone]
  · rw [or_iff_right hnone]
    constructor
    · rintro ⟨indices, h⟩
      exact consistent_of_assembled hnone h
    · intro h
      exact h.assembled hnone

end Assembly

section RoundTrip

variable {builder : TxoBufferBuilder} {order : List Write → List Write}

/-- The map of a client that has seen the chunks of the builder written. -/
def chunkTable (builder : TxoBufferBuilder) : AList fun _ : UInt32 => Bytes :=
  insertAll ∅ (builder.chunks.map fun chunk => ⟨UInt32.ofNat chunk.1, chunk.2⟩)

theorem foldlM_written {raw : Bytes} {ws : List Write}
    (hinside : ∀ e ∈ ws, e.1.toNat + e.2.length ≤ raw.length) :
    ws.foldlM copyWrite raw = some (written raw (ws.map fun e => (e.1.toNat, e.2))) := by
  induction ws generalizing raw with
  | nil => rfl
  | cons e ws ih =>
    obtain ⟨hfirst, hrest⟩ := List.forall_mem_cons.mp hinside
    rw [List.foldlM_cons, copyWrite_inside hfirst]
    exact ih fun e' he' => (splice_length hfirst).symm ▸ hrest e' he'

theorem chunk_offset (hsmall : builder.indices.length < 2 ^ 30) {chunk : ℕ × Bytes}
    (h : chunk ∈ builder.chunks) : (UInt32.ofNat chunk.1).toNat = chunk.1 := by
  have hle := (chunks_copy h).1
  rw [serializeAll_length] at hle
  exact UInt32.toNat_ofNat_of_lt' (by simp only [UInt32.size]; omega)

theorem chunks_offsets (hsmall : builder.indices.length < 2 ^ 30) :
    ((builder.chunks.map fun chunk => (⟨UInt32.ofNat chunk.1, chunk.2⟩ : Write)).map
      fun e => (e.1.toNat, e.2)) = builder.chunks := by
  rw [List.map_map]
  refine (List.map_congr_left fun chunk hchunk => ?_).trans (List.map_id _)
  exact Prod.ext (chunk_offset hsmall hchunk) rfl

theorem chunkTable_perm (hsmall : builder.indices.length < 2 ^ 30) :
    (chunkTable builder).entries.Perm
      (builder.chunks.map fun chunk => ⟨UInt32.ofNat chunk.1, chunk.2⟩) := by
  have hstarts : (builder.chunks.map Prod.fst).Nodup := by
    rw [TxoBufferBuilder.chunks, List.map_map]
    refine List.nodup_range.map fun i j hij => ?_
    exact Nat.eq_of_mul_eq_mul_right (by decide) hij
  rw [← chunks_offsets hsmall, List.map_map] at hstarts
  have hkeys : (builder.chunks.map fun chunk => (⟨UInt32.ofNat chunk.1, chunk.2⟩ : Write)
      ).NodupKeys := by
    rw [List.NodupKeys, List.keys]
    apply List.Nodup.of_map UInt32.toNat
    rw [List.map_map]
    exact hstarts
  refine (List.perm_ext_iff_of_nodup (chunkTable builder).nodupKeys.nodup hkeys.nodup).mpr
    fun e => mem_insertAll_empty ?_
  intro e he e' he' heq
  exact hkeys.eq_of_fst_eq he he' heq

theorem assembled_chunks (hsmall : builder.indices.length < 2 ^ 30)
    (horder : (order (chunkTable builder).entries).Perm (chunkTable builder).entries) :
    assembleTxoIndices order (chunkTable builder) (UInt32.ofNat builder.dataSize) =
      some builder.indices := by
  have hsize : (UInt32.ofNat builder.dataSize).toNat = builder.serializeAll.length := by
    rw [serializeAll_length]
    exact UInt32.toNat_ofNat_of_lt' (by simp only [UInt32.size, TxoBufferBuilder.dataSize]; omega)
  have hentries := chunkTable_perm hsmall
  by_cases hnone : (chunkTable builder).entries = [] ∨ UInt32.ofNat builder.dataSize = 0
  · have hempty : builder.serializeAll.length = 0 := by
      rcases hnone with hnil | hzero
      · by_contra hpos
        obtain ⟨chunk, hchunk, -⟩ := chunks_cover (Nat.pos_of_ne_zero hpos)
        rw [hnil] at hentries
        exact List.ne_nil_of_mem hchunk (List.map_eq_nil_iff.mp hentries.nil_eq.symm)
      · rw [← hsize, hzero]
        rfl
    rw [serializeAll_length] at hempty
    have hnil : builder.indices = [] := List.length_eq_zero_iff.mp (by omega)
    rw [assembleTxoIndices, if_pos hnone, hnil]
  · have hperm : ((order (chunkTable builder).entries).map fun e => (e.1.toNat, e.2)).Perm
        builder.chunks := by
      rw [← chunks_offsets hsmall]
      exact (horder.trans hentries).map _
    rw [assembleTxoIndices_some hnone, hsize]
    refine ⟨_, foldlM_written fun e he => ?_, ?_⟩
    · rw [List.length_replicate]
      exact (chunks_copy (hperm.mem_iff.mp (List.mem_map_of_mem he))).1
    · rw [written_chunks hperm List.length_replicate, words_serializeAll]

end RoundTrip

/-- The client assembles the outputs, and in the same way in every order of the map, exactly if
there is nothing to assemble or the writes are consistent. It gives back the indices of a builder
exactly if their size is a number of 32 bits. -/
theorem assembled_iff_consistent (writes : AList fun _ : UInt32 => Bytes) (size : UInt32)
    (builder : TxoBufferBuilder) :
    ((∃ indices, ∀ order : List Write → List Write,
        (order writes.entries).Perm writes.entries →
          assembleTxoIndices order writes size = some indices) ↔
      writes.entries = [] ∨ size = 0 ∨ Consistent writes size) ∧
    ((∀ order : List Write → List Write,
        (order (chunkTable builder).entries).Perm (chunkTable builder).entries →
          assembleTxoIndices order (chunkTable builder) (UInt32.ofNat builder.dataSize) =
            some builder.indices) ↔
      builder.indices.length < 2 ^ 30) := by
  refine ⟨assembled_alike_iff, fun h => ?_, fun hsmall order horder => ?_⟩
  · -- The indices are no longer than the size of 32 bits says.
    have hle := assembleTxoIndices_length (h id (List.Perm.refl _))
    have hsize := (UInt32.ofNat builder.dataSize).toNat_lt
    omega
  · exact assembled_chunks hsmall horder

def outside : AList fun _ : UInt32 => Bytes := AList.insert 8 [1, 0, 0, 0] ∅

def overlapping : AList fun _ : UInt32 => Bytes :=
  AList.insert 4 [3, 0, 0, 0] (AList.insert 0 [1, 0, 0, 0, 2, 0, 0, 0] ∅)

/-- One write behind the end of four bytes, and two that disagree about the second word. -/
theorem outside_panics_overlapping_varies :
    assembleTxoIndices id outside 4 = none ∧
      assembleTxoIndices id overlapping 8 = some [1, 2] ∧
      assembleTxoIndices List.reverse overlapping 8 = some [1, 3] := by
  decide

theorem oneIndex_assembled : assembleTxoIndices List.reverse (chunkTable ⟨[7], 0⟩) 4 = some [7] :=
  (assembled_iff_consistent ∅ 0 ⟨[7], 0⟩).2.mpr (by decide) _ (List.reverse_perm _)

end TxoAssembly
