import PsyDogeBridge.LocalCluster
import PsyDogeBridge.NoopShimMonitor

/-! The data of a message to the shim, as the bridge writes it and the monitor reads it. -/
namespace MessageCodec

open PodLayout SolanaRuntime BridgeData BridgeCalls ClientRpc NoopShimMonitor

def messageData (nonce : UInt32) (level : UInt8) (sighash tx : Bytes) : Bytes :=
  WORMHOLE_VAA_DISCRIMINATOR ++ Pod.u32.encode nonce ++ [level] ++
    Pod.u32.encode (UInt32.ofNat (sighash.length + tx.length)) ++ sighash ++ tx

section Written

variable {nonce : UInt32} {level : UInt8} {sighash tx : Bytes}

theorem messageData_length :
    (messageData nonce level sighash tx).length = 17 + (sighash.length + tx.length) := by
  simp only [messageData, List.length_append, Pod.encode_length]
  change 8 + 4 + 1 + 4 + sighash.length + tx.length = _
  omega

theorem messageData_discriminator :
    slice (messageData nonce level sighash tx) 0 8 = WORMHOLE_VAA_DISCRIMINATOR := by
  simp only [messageData, List.append_assoc]
  exact slice_append_left rfl

theorem messageData_nonce :
    slice (messageData nonce level sighash tx) 8 4 = Pod.u32.encode nonce := by
  simp only [messageData, List.append_assoc]
  exact slice_middle rfl (Pod.u32.encode_length nonce)

theorem messageData_size (hlen : sighash.length + tx.length < 2 ^ 32) :
    leValue (slice (messageData nonce level sighash tx) 13 4) = sighash.length + tx.length := by
  have hsize : slice (messageData nonce level sighash tx) 13 4 =
      Pod.u32.encode (UInt32.ofNat (sighash.length + tx.length)) := by
    rw [messageData, List.append_assoc, List.append_assoc]
    exact slice_middle (by simp [WORMHOLE_VAA_DISCRIMINATOR]) (Pod.u32.encode_length _)
  rw [hsize, Pod.leValue_u32, UInt32.toNat_ofNat_of_lt' hlen]

theorem messageData_payload (hlen : sighash.length + tx.length < 2 ^ 32) :
    payloadOf (messageData nonce level sighash tx) = sighash ++ tx := by
  have hlength : (sighash ++ tx).length = sighash.length + tx.length := List.length_append
  rw [payloadOf, messageData_size hlen, messageData, List.append_assoc,
    slice_append_right (by simp [WORMHOLE_VAA_DISCRIMINATOR]), ← hlength, List.take_length]

theorem messageData_accepted (hsighash : sighash.length = 32)
    (hlen : sighash.length + tx.length < 2 ^ 32) :
    MessageData (messageData nonce level sighash tx) := by
  refine ⟨?_, messageData_discriminator, ?_, ?_⟩
  · rw [messageData_length]
    exact Nat.le_add_right _ _
  · rw [messageData_size hlen, messageData_length]
  · rw [messageData_size hlen]
    omega

end Written

theorem messageData_read {data : Bytes} (h : MessageData data) :
    data.take (17 + leValue (slice data 13 4)) =
      messageData (Pod.u32.decode (slice data 8 4)) (data.getD 12 0) ((payloadOf data).take 32)
        ((payloadOf data).drop 32) := by
  have hlong := h.long
  have hpayload := h.payload_length
  have hnonce : Pod.u32.encode (Pod.u32.decode (slice data 8 4)) = slice data 8 4 :=
    Pod.u32.encode_decode _ (slice_length (by omega))
  have hlevel : [data.getD 12 0] = slice data 12 1 := by
    have hlt : 12 < data.length := by omega
    rw [slice, List.drop_eq_getElem_cons hlt, List.getD_eq_getElem _ _ hlt]
    rfl
  have hsize : Pod.u32.encode (UInt32.ofNat (((payloadOf data).take 32).length +
      ((payloadOf data).drop 32).length)) = slice data 13 4 := by
    rw [← List.length_append, List.take_append_drop, hpayload]
    exact Pod.u32.encode_decode _ (slice_length (by omega))
  rw [messageData, hnonce, hlevel, hsize, ← h.discriminator, List.append_assoc,
    List.take_append_drop, payloadOf, ← slice_add, ← slice_add, ← slice_add, ← slice_add]
  rfl

/-- Both directions, for every message: what the bridge sends is read back with the consistency
level 1, and whatever the monitor accepts is, up to the end of its payload, the encoding of what it
read. -/
theorem message_round_trip (config : NoopShimMonitorConfig) (signature : Signature) (slot : UInt64)
    (blockTime : Option ℤ) (keys : List Pubkey) (ix : CompiledInstruction) :
    (∀ (env : BridgeEnv) (inv : Invocation) (nonce : UInt32) (a : ShimAccounts)
        (emitter : AccountInfo) (sighash : QHash256) (tx : Bytes) (e : UInt8) (k : Pubkey),
      tx.length + 32 < 2 ^ 32 →
      ix.data = (vaaCall env inv nonce a emitter sighash.toList tx).data →
      keys[ix.programIdIndex.toNat]? = some config.noopShimProgramId →
      ix.accounts[2]? = some e → keys[e.toNat]? = some k →
      ∃ message, parseInstruction config signature slot blockTime keys ix = some message ∧
        message.nonce = nonce ∧ message.consistencyLevel = 1 ∧ message.sighash = sighash ∧
        message.dogeTxBytes = tx) ∧
    ∀ message, parseInstruction config signature slot blockTime keys ix = some message →
      ix.data.take (17 + leValue (slice ix.data 13 4)) =
        messageData message.nonce message.consistencyLevel message.sighash.toList
          message.dogeTxBytes := by
  constructor
  · intro env inv nonce a emitter sighash tx e k hlen hdata hprogram he hk
    have hsighash : sighash.toList.length = 32 := Vector.length_toList
    have hshort : sighash.toList.length + tx.length < 2 ^ 32 := by omega
    have hwritten : ix.data = messageData nonce 1 sighash.toList tx := hdata
    have haccepted : MessageData ix.data := by
      rw [hwritten]
      exact messageData_accepted hsighash hshort
    refine ⟨_, parseInstruction_iff.mpr ⟨hprogram, haccepted, e, k, he, hk, rfl⟩, ?_, ?_, ?_, ?_⟩
    · change Pod.u32.decode (slice ix.data 8 4) = nonce
      rw [hwritten, messageData_nonce, Pod.decode_encode]
    · change ix.data.getD 12 0 = 1
      rw [hwritten]
      rfl
    · change hashPod.decode ((payloadOf ix.data).take 32) = sighash
      rw [hwritten, messageData_payload hshort, List.take_left' hsighash, hashPod_decode]
    · change (payloadOf ix.data).drop 32 = tx
      rw [hwritten, messageData_payload hshort, List.drop_left' hsighash]
  · intro message hmessage
    obtain ⟨-, hdata, e, emitter, -, -, rfl⟩ := parseInstruction_iff.mp hmessage
    have hsighash : ((payloadOf ix.data).take 32).length = 32 := by
      rw [List.length_take_of_le]
      rw [hdata.payload_length]
      exact hdata.sighash
    have hbytes : (hashPod.decode ((payloadOf ix.data).take 32)).toList =
        (payloadOf ix.data).take 32 := by
      rw [← Pod.bytes_encode, hashPod.encode_decode _ hsighash]
    rw [hbytes]
    exact messageData_read hdata

section Sample

open LocalCluster

def bridgeAccount : AccountInfo := ⟨bridgeState, false, false⟩

def bridgeAccounts : ShimAccounts :=
  ⟨⟨NOOP_SHIM_PROGRAM_ID, false, false⟩, bridgeAccount, bridgeAccount, bridgeAccount, bridgeAccount,
    bridgeAccount, bridgeAccount, bridgeAccount, bridgeAccount, bridgeAccount⟩

def smallCall : Cpi :=
  vaaCall cluster ⟨DOGE_BRIDGE_PROGRAM_ID, [], 0, true⟩ 7 bridgeAccounts bridgeAccount
    (Vector.toList zeroBytes) [1, 2, 3]

/-- A message of three bytes with the nonce `7`. -/
theorem small_message_read :
    ∃ message, parseInstruction (.new bridgeState) (Vector.replicate 64 0) 0 none
        [NOOP_SHIM_PROGRAM_ID, bridgeState] ⟨0, [1, 1, 1], smallCall.data⟩ = some message ∧
      message.nonce = 7 ∧ message.consistencyLevel = 1 ∧ message.sighash = zeroBytes ∧
      message.dogeTxBytes = [1, 2, 3] :=
  (message_round_trip (.new bridgeState) (Vector.replicate 64 0) 0 none
    [NOOP_SHIM_PROGRAM_ID, bridgeState] ⟨0, [1, 1, 1], smallCall.data⟩).1 cluster
    ⟨DOGE_BRIDGE_PROGRAM_ID, [], 0, true⟩ 7 bridgeAccounts bridgeAccount zeroBytes [1, 2, 3] 1
    bridgeState (by decide) rfl rfl rfl rfl

end Sample

end MessageCodec
