import PsyDogeBridge.DecoderAgreement
import PsyDogeBridge.RequestDecoding

/-! The decoder of the bridge on arbitrary bytes: it panics on data that is shorter than the part
before the arguments, and it drops the bytes of a reorg after the last whole entry. -/
namespace ReorgDecoding

open PodLayout CheckedSteps SolanaRuntime BridgeData BridgeProcessor InstructionCodec MintGroups
  HistorySync DecoderAgreement RequestDecoding
open ManualClaimClient (Instruction)

variable {data payload : Bytes} {fixed : BlockUpdateFixedData}
  {extra : List FinalizedBlockMintTxoInfo} {b₁ b₂ : UInt8}

def processReorgBlocks (p : Platform) (programId payer : Pubkey) (proof : CompactBridgeZKProof)
    (header : PsyBridgeHeader) (extraBlocks : List FinalizedBlockMintTxoInfo)
    (operator mintBuffer txoBuffer : Pubkey) (mintBufferBump txoBufferBump : UInt8) :
    Instruction where
  programId := programId
  accounts :=
    [⟨bridgeStateOf p programId, false, true⟩, ⟨mintBuffer, false, true⟩,
      ⟨txoBuffer, false, true⟩, ⟨operator, true, false⟩, ⟨payer, true, true⟩,
      ⟨PENDING_MINT_BUFFER_BUILDER_PROGRAM_ID, false, false⟩,
      ⟨TXO_BUFFER_BUILDER_PROGRAM_ID, false, false⟩]
  data := genAlignedInstructionWithBumps 8 (BlockUpdateFixedData.pod.encode ⟨proof, header⟩)
      mintBufferBump txoBufferBump ++ extraBlocks.flatMap FinalizedBlockMintTxoInfo.pod.encode

/-- Behind the first eight bytes there is one answer to data that cannot be read. -/
theorem unpack_onlyFails (h8 : 8 ≤ data.length) :
    OnlyFails (bridgeError .serializationError) (unpack data) := by
  have hlong : OnlyFails (bridgeError .serializationError : Failure BridgeFault)
      (ensure (8 ≤ data.length) .panic) := by
    rw [ensure, if_pos h8]
    exact onlyFails_ok
  unfold unpack
  refine onlyFails_ensure.bind fun _ => hlong.bind fun _ => ?_
  dsimp only
  split
  case h_1 | h_2 | h_3 | h_4 | h_6 => exact onlyFails_orFail.map
  case h_5 | h_7 | h_11 => exact onlyFails_ok
  case h_8 | h_10 => exact onlyFails_ensure.bind fun _ => onlyFails_ok
  case h_9 => exact onlyFails_orFail.bind fun _ => onlyFails_ok
  case h_12 => exact onlyFails_error

theorem unpack_short (hne : data ≠ []) (h8 : data.length < 8) : unpack data = .error .panic := by
  have hempty : ensure (data ≠ []) (bridgeError .serializationError : Failure BridgeFault) =
      .ok () := if_pos hne
  have hlong : ensure (8 ≤ data.length) (.panic : Failure BridgeFault) = .error .panic :=
    if_neg (by omega)
  rw [unpack, hempty, hlong]
  rfl

/-- The decoder slices the data before it looks at its length. -/
theorem unpack_refuses_iff :
    OnlyFails (bridgeError .serializationError) (unpack data) ↔ data = [] ∨ 8 ≤ data.length := by
  constructor
  · intro h
    by_contra hcon
    obtain ⟨hne, hlen⟩ := not_or.mp hcon
    have hpanic := h .panic (unpack_short hne (Nat.not_le.mp hlen))
    cases hpanic
  · rintro (rfl | h8)
    · exact onlyFails_error
    · exact unpack_onlyFails h8

theorem unpack_reorg (h : unpack data = .ok (.processReorgBlocks fixed extra b₁ b₂)) :
    8 ≤ data.length ∧ data.getD 0 0 = 8 ∧
      reorgBlockUpdateReader (data.drop 8) = some (fixed, extra) := by
  simp only [unpack, bind_ok, ensure_ok, exists_const] at h
  obtain ⟨-, h8, h⟩ := h
  refine ⟨h8, ?_⟩
  have hbyte : (8 : UInt8).toNat = 8 := rfl
  rw [← UInt8.toNat_inj, hbyte]
  generalize (data.getD 0 0).toNat = b at h ⊢
  split at h
  case h_9 =>
    obtain ⟨fixed, extra, hread, heq⟩ := by simpa only [bind_ok, pure_ok, Prod.exists] using h
    cases heq
    exact ⟨rfl, orFail_ok.mp hread⟩
  case h_8 | h_10 =>
    obtain ⟨-, heq⟩ := by simpa only [bind_ok, ensure_ok, exists_const, pure_ok] using h
    cases heq
  case h_5 | h_7 | h_11 | h_12 => cases h
  all_goals
    obtain ⟨_, -, heq⟩ := map_ok.mp h
    cases heq

theorem unpack_reorg_of_reader (h8 : 8 ≤ data.length) (hbyte : data.getD 0 0 = 8)
    (h : reorgBlockUpdateReader (data.drop 8) = some (fixed, extra)) :
    unpack data = .ok (.processReorgBlocks fixed extra (data.getD 6 0) (data.getD 7 0)) := by
  have hne : data ≠ [] := by
    rintro rfl
    cases h8
  simp only [unpack, bind_ok, ensure_ok, exists_const]
  refine ⟨hne, h8, ?_⟩
  rw [hbyte, h]
  rfl

/-- What the reader gives back is the whole payload, if it ends with a whole entry. -/
theorem reader_whole {k : ℕ} (h : reorgBlockUpdateReader payload = some (fixed, extra))
    (hlen : payload.length =
      BlockUpdateFixedData.pod.size + k * FinalizedBlockMintTxoInfo.pod.size) :
    payload = BlockUpdateFixedData.pod.encode fixed ++
      extra.flatMap FinalizedBlockMintTxoInfo.pod.encode := by
  obtain ⟨hlong, rfl, rfl⟩ := reorgBlockUpdateReader_eq h
  have hrest : (payload.drop BlockUpdateFixedData.pod.size).length =
      k * FinalizedBlockMintTxoInfo.pod.size := by
    rw [List.length_drop, hlen, Nat.add_sub_cancel_left]
  have hsize : 0 < FinalizedBlockMintTxoInfo.pod.size := by decide
  have hchunks : ((chunksExact FinalizedBlockMintTxoInfo.pod.size
      (payload.drop BlockUpdateFixedData.pod.size)).map
        FinalizedBlockMintTxoInfo.pod.decode).flatMap FinalizedBlockMintTxoInfo.pod.encode =
      payload.drop BlockUpdateFixedData.pod.size := by
    rw [chunksExact, hrest, Nat.mul_div_cancel _ hsize, List.map_map]
    exact Pod.flatMap_decode_block _ hrest
  rw [hchunks, Pod.encode_decode _ _ (slice_length (by omega))]
  exact (List.take_append_drop _ _).symm

/-- The decoder is strict on a set of byte strings: it answers each of them with an instruction or
with its own error, a reorg that it reads ends with a whole entry, and two reorgs that it reads
alike have the same payload. -/
structure StrictDecoder (S : Set Bytes) : Prop where
  refuses : ∀ data ∈ S, (∃ ix, unpack data = .ok ix) ∨
    unpack data = .error (bridgeError .serializationError)
  whole : ∀ data ∈ S, ∀ fixed extra b₁ b₂,
    unpack data = .ok (.processReorgBlocks fixed extra b₁ b₂) →
      ∃ k, (data.drop 8).length =
        BlockUpdateFixedData.pod.size + k * FinalizedBlockMintTxoInfo.pod.size
  injective : ∀ data ∈ S, ∀ data' ∈ S, ∀ fixed extra b₁ b₂ b₁' b₂',
    unpack data = .ok (.processReorgBlocks fixed extra b₁ b₂) →
      unpack data' = .ok (.processReorgBlocks fixed extra b₁' b₂') → data.drop 8 = data'.drop 8

/-- Data that is empty or long enough for the first eight bytes; if it selects a reorg and has the
fixed part, whole entries follow it. -/
structure Framed (data : Bytes) : Prop where
  long : data = [] ∨ 8 ≤ data.length
  entries : data.getD 0 0 = 8 → 8 + BlockUpdateFixedData.pod.size ≤ data.length →
    FinalizedBlockMintTxoInfo.pod.size ∣ data.length - (8 + BlockUpdateFixedData.pod.size)

theorem Framed.whole (h : Framed data)
    (hread : unpack data = .ok (.processReorgBlocks fixed extra b₁ b₂)) :
    ∃ k, (data.drop 8).length =
      BlockUpdateFixedData.pod.size + k * FinalizedBlockMintTxoInfo.pod.size := by
  obtain ⟨h8, hbyte, hreader⟩ := unpack_reorg hread
  have hlong := (reorgBlockUpdateReader_eq hreader).1
  rw [List.length_drop] at hlong
  obtain ⟨k, hk⟩ := h.entries hbyte (by omega)
  refine ⟨k, ?_⟩
  rw [List.length_drop, Nat.mul_comm k, ← hk]
  omega

theorem framed_strict {S : Set Bytes} (h : ∀ data ∈ S, Framed data) : StrictDecoder S where
  refuses data hdata := onlyFails_iff.mp (unpack_refuses_iff.mpr (h data hdata).long)
  whole data hdata _ _ _ _ hread := (h data hdata).whole hread
  injective := by
    intro data hdata data' hdata' fixed extra b₁ b₂ b₁' b₂' hread hread'
    obtain ⟨k, hk⟩ := (h data hdata).whole hread
    obtain ⟨k', hk'⟩ := (h data' hdata').whole hread'
    rw [reader_whole (unpack_reorg hread).2.2 hk, reader_whole (unpack_reorg hread').2.2 hk']

theorem StrictDecoder.framed {S : Set Bytes} (h : StrictDecoder S) (hdata : data ∈ S) :
    Framed data where
  long := unpack_refuses_iff.mp (onlyFails_iff.mpr (h.refuses data hdata))
  entries := by
    intro hbyte hlong
    have hpayload : BlockUpdateFixedData.pod.size ≤ (data.drop 8).length := by
      rw [List.length_drop]
      omega
    have hread := unpack_reorg_of_reader (by omega) hbyte (if_neg (Nat.not_lt.mpr hpayload))
    obtain ⟨k, hk⟩ := h.whole data hdata _ _ _ _ hread
    refine ⟨k, ?_⟩
    rw [List.length_drop] at hk
    rw [Nat.mul_comm]
    omega

/-- The decoder is strict exactly on the data that is framed, and it reads back every reorg that
the client builds. -/
theorem decoder_strict_iff (S : Set Bytes) :
    (StrictDecoder S ∧ ∀ (p : Platform) (programId payer : Pubkey) (proof : CompactBridgeZKProof)
        (header : PsyBridgeHeader) (extraBlocks : List FinalizedBlockMintTxoInfo)
        (operator mintBuffer txoBuffer : Pubkey) (mintBufferBump txoBufferBump : UInt8),
      unpack (processReorgBlocks p programId payer proof header extraBlocks operator mintBuffer
        txoBuffer mintBufferBump txoBufferBump).data =
          .ok (.processReorgBlocks ⟨proof, header⟩ extraBlocks mintBufferBump txoBufferBump)) ↔
      ∀ data ∈ S, Framed data := by
  constructor
  · rintro ⟨hstrict, -⟩ data hdata
    exact hstrict.framed hdata
  · intro h
    refine ⟨framed_strict h, fun p programId payer proof header extra _ _ _ b₁ b₂ => ?_⟩
    exact (congrArg unpack (List.append_assoc ..)).trans
      (unpack_instructionData (.processReorgBlocks ⟨proof, header⟩ extra b₁ b₂))

def zeroFixed : BlockUpdateFixedData :=
  BlockUpdateFixedData.pod.decode (List.replicate BlockUpdateFixedData.pod.size 0)

def looseReorg (rest : Bytes) : Bytes :=
  genAlignedInstructionWithBumps 8 (BlockUpdateFixedData.pod.encode zeroFixed ++ rest) 255 255

theorem looseReorg_payload (rest : Bytes) :
    (looseReorg rest).drop 8 = BlockUpdateFixedData.pod.encode zeroFixed ++ rest :=
  List.drop_left' rfl

theorem unpack_looseReorg {rest : Bytes} (h : rest.length < FinalizedBlockMintTxoInfo.pod.size) :
    unpack (looseReorg rest) = .ok (.processReorgBlocks zeroFixed [] 255 255) := by
  have hfixed := BlockUpdateFixedData.pod.encode_length zeroFixed
  have hlen : (BlockUpdateFixedData.pod.encode zeroFixed ++ rest).length =
      BlockUpdateFixedData.pod.size + rest.length := by
    rw [List.length_append, hfixed]
  have hreader : reorgBlockUpdateReader ((looseReorg rest).drop 8) = some (zeroFixed, []) := by
    rw [looseReorg_payload, reorgBlockUpdateReader, if_neg (by omega), hlen,
      Nat.add_sub_cancel_left, Nat.div_eq_of_lt h, List.take_left' hfixed, Pod.decode_encode]
    rfl
  have hlong : 8 ≤ (looseReorg rest).length := by
    rw [looseReorg, genAlignedInstructionWithBumps, List.length_append]
    exact Nat.le_add_right 8 _
  have hbyte (i : ℕ) (hi : i < 8) : (looseReorg rest).getD i 0 =
      (List.replicate 6 8 ++ [255, 255] : Bytes).getD i 0 :=
    List.getD_append _ _ _ _ hi
  rw [unpack_reorg_of_reader hlong (hbyte 0 (by decide)) hreader, hbyte 6 (by decide),
    hbyte 7 (by decide)]
  rfl

/-- One byte after a reorg is dropped, so that its payload is read like the one without it; and
the data of one byte stops the program. -/
theorem loose_reorg_read :
    unpack [0] = .error .panic ∧
      unpack (looseReorg [0]) = .ok (.processReorgBlocks zeroFixed [] 255 255) ∧
      unpack (looseReorg []) = .ok (.processReorgBlocks zeroFixed [] 255 255) ∧
      (looseReorg [0]).drop 8 ≠ (looseReorg []).drop 8 ∧
      ¬ StrictDecoder {looseReorg [0], looseReorg []} := by
  have hread : unpack (looseReorg [0]) = .ok (.processReorgBlocks zeroFixed [] 255 255) :=
    unpack_looseReorg (by decide)
  have hread' : unpack (looseReorg []) = .ok (.processReorgBlocks zeroFixed [] 255 255) :=
    unpack_looseReorg (by decide)
  have hdiffer : (looseReorg [0]).drop 8 ≠ (looseReorg []).drop 8 := by
    rw [looseReorg_payload, looseReorg_payload]
    intro h
    cases List.append_cancel_left h
  refine ⟨unpack_short (by decide) (by decide), hread, hread', hdiffer, ?_⟩
  intro h
  exact hdiffer (h.injective _ (.inl rfl) _ (.inr rfl) _ _ _ _ _ _ hread hread')

end ReorgDecoding
