import PsyDogeBridge.BridgeSystem
import PsyDogeBridge.DerivedAddress
import PsyDogeBridge.InstructionCodec
import PsyDogeBridge.SplToken

/-! A cluster on which only the programs of the bridge and the token program are deployed, with
the real hash function and the real derivation of addresses. Its verifier accepts every proof. -/
namespace LocalCluster

open PodLayout SolanaRuntime BridgeData MintGroups PendingMintsTracker ProgramState BlockTransition
  TransitionFacts BridgeCalls AcceptedInstructions BridgeSystem

def platform : Platform where
  findProgramAddress := DerivedAddress.findProgramAddress
  createProgramAddress := DerivedAddress.createProgramAddress
  foreign k l accounts data :=
    if k = TOKEN_PROGRAM_ID then SplToken.processInstruction l accounts data else none
  checksBorrows := true

def crypto : Crypto := ⟨Sha256.sha256, fun _ _ _ => true⟩

def cluster : BridgeEnv := ⟨platform, crypto, ⟨true, false, true⟩⟩

def bridgeState : Pubkey :=
  const32 0x84b267dd47474dd7ee3b7d7fb5b10d8626bf52ff8d2c82135770fead3a5ab1ba

theorem bridgeState_derived :
    DerivedAddress.findProgramAddress [BRIDGE_STATE_SEED] DOGE_BRIDGE_PROGRAM_ID =
      (bridgeState, 255) := by decide +kernel

theorem cluster_pda : BridgeEnv.pda cluster = bridgeState := congrArg Prod.fst bridgeState_derived

theorem ne_pda {k : Pubkey} (h : k ≠ bridgeState) : k ≠ BridgeEnv.pda cluster := cluster_pda ▸ h

theorem writable_key (k : Pubkey) : (⟨k, false, true⟩ : AccountInfo).key = k := rfl

theorem cluster_pda_key : (⟨BridgeEnv.pda cluster, false, true⟩ : AccountInfo).key = bridgeState :=
  (writable_key _).trans cluster_pda

theorem token_bystander {own : Pubkey → Prop} (hown : ¬ own TOKEN_PROGRAM_ID) (k : Pubkey) :
    Bystander platform own k := by
  intro l accounts data l' h
  unfold platform at h
  dsimp only at h
  split at h
  · exact SplToken.processInstruction_untouched hown h
  · cases h

theorem token_ne_bridge : TOKEN_PROGRAM_ID ≠ DOGE_BRIDGE_PROGRAM_ID := by decide

theorem cluster_guarded : Guarded cluster.platform := fun k => token_bystander token_ne_bridge k

def operatorKey : Pubkey := Vector.replicate 32 1
def strangerKey : Pubkey := Vector.replicate 32 2
def mintKey : Pubkey := Vector.replicate 32 3

def emptyLedger : Ledger := fun _ => ⟨SYSTEM_PROGRAM_ID, []⟩

def headerAt (height : UInt32) : PsyBridgeHeader where
  tipState := ⟨zeroBytes, zeroBytes, 0, height⟩
  finalizedState := ⟨zeroBytes, zeroBytes, PM_DA_DEFAULT_PENDING_MINTS_BUFFER_HASH,
    PM_TXO_DEFAULT_BUFFER_HASH, zeroBytes, zeroBytes, 0, height⟩
  bridgeStateHash := zeroBytes
  lastRollbackAtSecs := 0
  pausedUntilSecs := 0
  totalFinalizedFeesCollectedChainHistory := 0

def genesisParams (operator : Pubkey) (height : UInt32) : InitializeBridgeInstructionData where
  operatorPubkey := operator
  feeSpenderPubkey := operator
  dogeMint := mintKey
  bridgeHeader := headerAt height
  startReturnTxoOutput := ⟨zeroBytes, 0, 0⟩
  configParams := ⟨1, 100, 1, 100, 0, 0⟩
  custodianWalletConfigHash := zeroBytes

def genesisState (operator : Pubkey) (height : UInt32) : BridgeState :=
  ⟨PsyBridgeProgramState.initialized (genesisParams operator height), mintKey⟩

def mintAccount (authority : Pubkey) (supply : ℕ) : Account :=
  ⟨TOKEN_PROGRAM_ID, [1, 0, 0, 0] ++ authority.toList ++ leBytes 8 supply ++ [9, 1] ++
    List.replicate 36 0⟩

def tokenAccount (mint owner : Pubkey) (balance : ℕ) : Account :=
  ⟨TOKEN_PROGRAM_ID, mint.toList ++ owner.toList ++ leBytes 8 balance ++ List.replicate 36 0 ++
    [1] ++ List.replicate 56 0⟩

section Tokens

variable {env : BridgeEnv} {inv : Invocation} {l l' : Ledger}

theorem cluster_tokenCall (a b c : AccountInfo) (tag : UInt8) (amount : UInt64) :
    cluster.platform.foreign TOKEN_PROGRAM_ID l [a, b, c] (tag :: Pod.u64.encode amount) =
      if tag = 7 then SplToken.mintTo l a b c amount.toNat
      else if tag = 8 then SplToken.burn l a b c amount.toNat
      else none := by
  have hlen : ¬ (Pod.u64.encode amount).length ≠ 8 := not_not.mpr (Pod.encode_length _ _)
  change (if TOKEN_PROGRAM_ID = TOKEN_PROGRAM_ID then
    SplToken.processInstruction l [a, b, c] (tag :: Pod.u64.encode amount) else none) = _
  rw [if_pos rfl]
  unfold SplToken.processInstruction
  dsimp only
  rw [if_neg hlen, Pod.leValue_u64]

theorem cluster_burn {source mint authority : AccountInfo} (amount : UInt64) :
    cluster.platform.foreign TOKEN_PROGRAM_ID l [source, mint, authority]
      (8 :: Pod.u64.encode amount) = SplToken.burn l source mint authority amount.toNat := by
  rw [cluster_tokenCall, if_neg (by decide), if_pos rfl]

theorem cluster_mint {mint recipient authority : Pubkey} (amount : UInt64) (hmint : mint = mintKey)
    (hauthority : authority = bridgeState) (hm : l mintKey = mintAccount bridgeState 0)
    (hr : l recipient = tokenAccount mintKey operatorKey 0) :
    ∃ l', cluster.platform.foreign TOKEN_PROGRAM_ID l [⟨mint, false, true⟩,
      ⟨recipient, false, true⟩, ⟨authority, true, false⟩] (7 :: Pod.u64.encode amount) =
        some l' := by
  have hsupply : SplToken.supply (mintAccount bridgeState 0) = 0 := by decide
  have hbalance : SplToken.balance (tokenAccount mintKey operatorKey 0) = 0 := by decide
  have hcall : SplToken.mintTo l ⟨mint, false, true⟩ ⟨recipient, false, true⟩
      ⟨authority, true, false⟩ amount.toNat = some (SplToken.settle l mint recipient
        (SplToken.supply (l mint) + amount.toNat)
          (SplToken.balance (l recipient) + amount.toNat)) := by
    refine if_pos ?_
    dsimp only
    rw [hmint, hauthority, hm, hr, hsupply, hbalance, Nat.zero_add]
    exact ⟨by decide, by decide +kernel, rfl, rfl, rfl, by decide,
      amount.toNat_lt, amount.toNat_lt⟩
  exact ⟨_, (cluster_tokenCall _ _ _ 7 amount).trans hcall⟩

section

variable (hp : inv.programId = DOGE_BRIDGE_PROGRAM_ID)
include hp

theorem callee_token {c : Cpi} (hc : c.programId = TOKEN_PROGRAM_ID) :
    callee env inv c l = env.platform.foreign TOKEN_PROGRAM_ID l c.accounts c.data := by
  have hbuffer : TOKEN_PROGRAM_ID ≠ PENDING_MINT_BUFFER_BUILDER_PROGRAM_ID := by decide
  have hshim : TOKEN_PROGRAM_ID ≠ NOOP_SHIM_PROGRAM_ID := by decide
  rw [callee, hp, hc, if_neg hbuffer, if_neg hshim, if_neg token_ne_bridge]

variable {b : Borrows} {mint recipient authority : AccountInfo} {amount : UInt64}

theorem mint_called
    (htoken : env.platform.foreign TOKEN_PROGRAM_ID = cluster.platform.foreign TOKEN_PROGRAM_ID)
    (permitted : ∀ m ∈ (mintToCall env inv mint recipient authority amount).accounts, b.permit m)
    (listed : inv.lists TOKEN_PROGRAM_ID)
    (granted : ∀ m ∈ (mintToCall env inv mint recipient authority amount).accounts,
      inv.grants (mintToCall env inv mint recipient authority amount) m)
    (hmint : mint.key = mintKey) (hauthority : authority.key = bridgeState)
    (hm : l mintKey = mintAccount bridgeState 0)
    (hr : l recipient.key = tokenAccount mintKey operatorKey 0) :
    ∃ l', Called env inv b (mintToCall env inv mint recipient authority amount) l l' := by
  obtain ⟨l', hran⟩ := cluster_mint amount hmint hauthority hm hr
  refine ⟨l', fun _ => permitted, listed, granted, ?_⟩
  rw [callee_token hp rfl, htoken]
  exact hran

theorem minted_elsewhere
    {k : Pubkey}
    (h : Called cluster inv b (mintToCall cluster inv mint recipient authority amount) l l')
    (hk : (l k).owner ≠ TOKEN_PROGRAM_ID) : l' k = l k := by
  obtain ⟨-, -, -, hcall⟩ := h
  rw [callee_token hp rfl] at hcall
  have hothers (program : Pubkey) : Bystander platform (· ≠ TOKEN_PROGRAM_ID) program :=
    token_bystander (not_not.mpr rfl) program
  exact (hothers _ _ _ _ _ hcall).kept k hk

theorem minted_owner
    (h : Called cluster inv b (mintToCall cluster inv mint recipient authority amount) l l')
    (k : Pubkey) : (l' k).owner = (l k).owner := by
  obtain ⟨-, -, -, hcall⟩ := h
  have hmint : SplToken.mintTo l ⟨mint.key, false, true⟩ ⟨recipient.key, false, true⟩
      ⟨authority.key, true, false⟩ amount.toNat = some l' := by
    rw [callee_token hp rfl] at hcall
    exact (cluster_tokenCall _ _ _ 7 amount).symm.trans hcall
  unfold SplToken.mintTo at hmint
  split at hmint
  · cases hmint
    rw [SplToken.settle, setData_owner, setData_owner]
  · cases hmint

end

end Tokens

section Deposits

variable {c : Crypto} {count : UInt16} {area txos : Bytes}

theorem mintBufferHeader_append (header : PendingMintsBufferStateHeader) (area : Bytes) :
    mintBufferHeader (PendingMintsBufferStateHeader.pod.encode header ++ area) = header := by
  have hlen : (PendingMintsBufferStateHeader.pod.encode header).length = 72 := Pod.encode_length _ _
  rw [mintBufferHeader, slice_append_left hlen, Pod.decode_encode]

theorem txoBufferHeader_append (header : PendingMintsTxoBufferHeader) (txos : Bytes) :
    txoBufferHeader (PendingMintsTxoBufferHeader.pod.encode header ++ txos) = header := by
  have hlen : (PendingMintsTxoBufferHeader.pod.encode header).length = 48 := Pod.encode_length _ _
  rw [txoBufferHeader, slice_append_left hlen, Pod.decode_encode]

def mintBuffer (count : UInt16) (area : Bytes) : Bytes :=
  PendingMintsBufferStateHeader.pod.encode
    ⟨bridgeState, operatorKey, 1, 0, (computeMintGroupInfo count).1, count, count⟩ ++ area

def txoBuffer (height : UInt32) (txos : Bytes) : Bytes :=
  PendingMintsTxoBufferHeader.pod.encode ⟨operatorKey, 1, 1, height, 0, 1⟩ ++ txos

def openBuffer (count : UInt16) (area : Bytes) : Bytes :=
  PendingMintsBufferStateHeader.pod.encode
    ⟨bridgeState, operatorKey, 0, 0, (computeMintGroupInfo count).1, count, count⟩ ++ area

def mintBufferKey : Pubkey :=
  const32 0xe96c091dac1a561dbb48c0726e4dc5e8412cc5ab73b8af493b0f16f929416182
def txoBufferKey : Pubkey :=
  const32 0x7bd678038056b0d069b261045205812995c86b9de623414d012bbb0f345fd601

theorem mintBufferKey_derived :
    platform.createProgramAddress [PendingMintBuffer.MINT_BUFFER_SEED, operatorKey.toList, [253]]
      PENDING_MINT_BUFFER_BUILDER_PROGRAM_ID = some mintBufferKey := by decide +kernel

theorem txoBufferKey_derived :
    platform.createProgramAddress [TXO_BUFFER_SEED, operatorKey.toList, [254]]
      TXO_BUFFER_BUILDER_PROGRAM_ID = some txoBufferKey := by decide +kernel

def bufferLedger (mints txos : Bytes) : Ledger :=
  Function.update
    (Function.update emptyLedger mintBufferKey ⟨PENDING_MINT_BUFFER_BUILDER_PROGRAM_ID, mints⟩)
    txoBufferKey ⟨TXO_BUFFER_BUILDER_PROGRAM_ID, txos⟩

def mintPreimage (count : UInt16) (area : Bytes) : Bytes :=
  Pod.u16.encode count ++ area.take (groupCount count.toNat * 32)

theorem mintBuffer_matches (hc : count.toNat < 65535)
    (ha : area.length = groupCount count.toNat * 32 + count.toNat * 40) :
    MintBufferMatches c bridgeState (c.sha256 (mintPreimage count area)) (mintBuffer count area)
      count := by
  have hheader : mintBufferHeader (mintBuffer count area) =
      ⟨bridgeState, operatorKey, 1, 0, (computeMintGroupInfo count).1, count, count⟩ :=
    mintBufferHeader_append _ _
  have hlen : (mintBuffer count area).length = 72 + area.length := by
    rw [mintBuffer, List.length_append, Pod.encode_length]
    rfl
  have harea : slice (mintBuffer count area) 72 (groupCount count.toNat * 32) =
      area.take (groupCount count.toNat * 32) :=
    slice_append_right (Pod.encode_length _ _)
  refine ⟨?_, ?_, ?_, ?_, hc, ?_⟩
  · rw [hlen, ha]
    omega
  · rw [hheader]
  · rw [hheader]
  · rw [hheader, computeMintGroupInfo_toNat]
  · rw [hashed_part (by omega), hheader, harea, mintPreimage]

theorem txoBuffer_matches (height : UInt32) (ht : txos.length = count.toNat * 4) :
    TxoBufferMatches c (c.sha256 txos) height (txoBuffer height txos) count := by
  have hlen : (txoBuffer height txos).length = 48 + txos.length := by
    rw [txoBuffer, List.length_append, Pod.encode_length]
    rfl
  refine ⟨?_, ?_, ?_⟩
  · rw [hlen, ht]
  · exact congrArg _ (txoBufferHeader_append _ _)
  · have htxos : slice (txoBuffer height txos) 48 (count.toNat * 4) = txos.take (count.toNat * 4) :=
      slice_append_right (Pod.encode_length _ _)
    rw [htxos, ← ht, List.take_length]

theorem txoBuffer_dataSize (height : UInt32) (txos : Bytes) :
    (txoBufferHeader (txoBuffer height txos)).dataSize ≠ 0 := by
  rw [txoBuffer, txoBufferHeader_append]
  change (1 : UInt32) ≠ 0
  decide

def depositHeader (height index : UInt32) (mints txos : QHash256) : PsyBridgeHeader :=
  { headerAt height with
    finalizedState :=
      { (headerAt height).finalizedState with
        pendingMintsFinalizedHash := mints
        txoOutputListFinalizedHash := txos
        autoClaimedDepositsNextIndex := index } }

def firstHeader (count : UInt16) (area txos : Bytes) : PsyBridgeHeader :=
  depositHeader 11 count.toUInt32 (crypto.sha256 (mintPreimage count area)) (crypto.sha256 txos)

theorem firstHeader_newAutoClaims :
    newAutoClaims (genesisState operatorKey 10).coreState (firstHeader count area txos) =
      count.toUInt32 := UInt32.sub_zero _

def firstBacklog (account : Pubkey) (count : UInt16) (area txos : Bytes) :
    FinalizedBlockMintTxoManager :=
  FinalizedBlockMintTxoManager.default.opened 11 [headerInfo (firstHeader count area txos)] account
    count.toUInt32 (computeMintGroupInfo count).1.toUInt32

theorem firstHeader_accepted {txoMem : Bytes} (account : Pubkey) (proof : Vector UInt8 256)
    (vk : Vector UInt8 32) (hcount : count ≠ 0) (hc : count.toNat < 65535)
    (ha : area.length = groupCount count.toNat * 32 + count.toNat * 40)
    (hsize : (txoBufferHeader txoMem).dataSize ≠ 0)
    (ht : TxoBufferMatches crypto (crypto.sha256 txos) 11 txoMem count)
    (hne : crypto.sha256 (mintPreimage count area) ≠ PM_DA_DEFAULT_PENDING_MINTS_BUFFER_HASH) :
    ∃ s', runStandardSingleBlockTransition crypto (genesisState operatorKey 10).coreState
        proof.toList vk.toList (firstHeader count area txos) bridgeState account
        txoMem (mintBuffer count area) = .ok s' ∧
      s'.bridgeHeader = firstHeader count area txos ∧
      s'.pendingMintTxos = firstBacklog account count area txos ∧
      s'.accessControl = (genesisState operatorKey 10).coreState.accessControl := by
  have hback : count.toUInt32.toUInt16 = count := by
    apply UInt16.toNat_inj.mp
    rw [UInt32.toNat_toUInt16, UInt16.toNat_toUInt32]
    exact Nat.mod_eq_of_lt count.toNat_lt
  have hfew : ¬ count.toUInt32 > 65535 := by
    rw [gt_iff_lt, UInt32.lt_iff_toNat_lt, UInt16.toNat_toUInt32]
    exact Nat.not_lt.mpr (Nat.le_of_lt hc)
  have hopen : (headerInfo (firstHeader count area txos)).isEmpty = false := by
    rw [FinalizedBlockMintTxoInfo.isEmpty, Bool.and_eq_false_iff, beq_eq_false_iff_ne]
    exact .inl hne
  have htip : ¬ (11 : UInt32) ≤ 10 := by decide
  obtain ⟨recent, hrecent⟩ : ∃ recent,
    setRecentFinalizedBlock (genesisState operatorKey 10).coreState
      (firstHeader count area txos).finalizedState = .ok recent := ⟨_, dif_pos (by decide)⟩
  refine ⟨_, runStandardSingleBlockTransition_ok.mpr ⟨⟨rfl, Vector.length_toList,
    Vector.length_toList, htip, Nat.not_lt_zero _⟩, rfl, ?_, rfl,
      firstBacklog account count area txos,
    recent, .opens ?_ ?_ ⟨rfl, ⟨_, _, rfl, hopen, ?_, ?_⟩, Nat.le_add_left 1 7, ?_⟩, hrecent, rfl⟩,
    rfl, rfl, rfl⟩
  · rw [firstHeader_newAutoClaims]
    exact hfew
  · rw [firstHeader_newAutoClaims]
    exact toUInt32_ne_zero hcount
  · exact hsize
  · rw [firstHeader_newAutoClaims, hback]
    exact mintBuffer_matches hc ha
  · rw [firstHeader_newAutoClaims, hback]
    exact ht
  · rw [firstHeader_newAutoClaims, hback]
    rfl

def recipientKey : Pubkey := Vector.replicate 32 7
def depositRecord : Bytes := recipientKey.toList ++ Pod.u64.encode 990
def depositArea : Bytes := (crypto.sha256 depositRecord).toList ++ depositRecord
def depositTxos : Bytes := [0, 0, 0, 0]

theorem crypto_standard : StandardHash crypto := ⟨by decide, by decide⟩

end Deposits

end LocalCluster
