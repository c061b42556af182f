import PsyDogeBridge.ParsedOperations
import PsyDogeBridge.StateHistory

/-! The bridge takes the kind of an instruction from byte 0 of its data, the off-chain decoders
from byte 4: on which data they agree. -/
namespace DecoderAgreement

open PodLayout CheckedSteps SolanaRuntime BridgeData MintGroups BridgeProcessor BridgeSystem
  LocalCluster StateHistory ClientRpc BridgeMonitor HistorySync

variable {signature : Signature} {slot : UInt64} {blockTime : Option ℤ} {accountKeys : List Pubkey}
  {config : HistorySyncConfig}
  {ix : CompiledInstruction} {i : BridgeInstruction} {kind other : ℕ}

def updateInfo (accountKeys : List Pubkey) (accounts : Bytes) (fixed : BlockUpdateFixedData)
    (extra : List FinalizedBlockMintTxoInfo) (isReorg : Bool) : BlockUpdateInfo :=
  ⟨fixed.header.finalizedState.blockHeight, isReorg, extra, accountAt accountKeys accounts 1,
    accountAt accountKeys accounts 2, accountAt accountKeys accounts 3⟩

def readingOf (signature : Signature) (slot : UInt64) (blockTime : Option ℤ)
    (accountKeys : List Pubkey) (config : HistorySyncConfig) (accounts : Bytes) :
    BridgeInstruction → Option Reading
  | .blockUpdate fixed _ _ => some (.update (updateInfo accountKeys accounts fixed [] false))
  | .processReorgBlocks fixed extra _ _ =>
    some (.update (updateInfo accountKeys accounts fixed extra true))
  | .requestWithdrawal request =>
    if config.includeWithdrawals then
      some (.record (requestRecord signature slot blockTime accountKeys accounts request))
    else none
  | .processWithdrawal params =>
    if config.includeWithdrawals then
      some (.record (processedRecord signature slot blockTime params))
    else none
  | .processManualDeposit params =>
    if config.includeManualDeposits then
      some (.record (depositRecord signature slot blockTime params))
    else none
  | _ => none

theorem processInstruction_eq
    (ha : accountKeys[ix.programIdIndex.toNat]? = some config.programId)
    (h8 : 8 ≤ ix.data.length) :
    HistorySync.processInstruction signature slot blockTime accountKeys config ix =
      readAt signature slot blockTime accountKeys config ix (ix.data.getD 4 0).toNat := by
  rw [HistorySync.processInstruction, if_neg (by rw [ha]; simp), if_neg (by omega)]

theorem reorgBlockUpdateReader_eq {data : Bytes} {fixed : BlockUpdateFixedData}
    {extra : List FinalizedBlockMintTxoInfo}
    (h : reorgBlockUpdateReader data = some (fixed, extra)) :
    BlockUpdateFixedData.pod.size ≤ data.length ∧
      fixed = BlockUpdateFixedData.pod.decode (slice data 0 BlockUpdateFixedData.pod.size) ∧
      extra = (chunksExact FinalizedBlockMintTxoInfo.pod.size
        (data.drop BlockUpdateFixedData.pod.size)).map FinalizedBlockMintTxoInfo.pod.decode := by
  simp only [reorgBlockUpdateReader] at h
  split at h
  · cases h
  · next hlen =>
    obtain ⟨rfl, rfl⟩ := Prod.mk.inj (Option.some.inj h)
    refine ⟨Nat.not_lt.mp hlen, rfl, ?_⟩
    rw [chunksExact, List.map_map, List.length_drop]
    apply List.map_congr_left
    intro j _
    rw [Function.comp_apply, slice_drop]

theorem readingOf_unpack (hi : unpack ix.data = .ok i) :
    readingOf signature slot blockTime accountKeys config ix.accounts i =
      (readAt signature slot blockTime accountKeys config ix (ix.data.getD 0 0).toNat).join := by
  simp only [unpack, bind_ok, ensure_ok, exists_const] at hi
  obtain ⟨-, h8, hi⟩ := hi
  generalize (ix.data.getD 0 0).toNat = b at hi
  split at hi
  case h_2 =>
    obtain ⟨_, hread, rfl⟩ := map_ok.mp hi
    rw [readingOf, readAt, readBlockUpdate, arguments_read h8 (orFail_ok.mp hread)]
    rfl
  case h_3 | h_4 | h_6 =>
    obtain ⟨_, hread, rfl⟩ := map_ok.mp hi
    simp only [readingOf, readAt, HistorySync.parseWithdrawalRequest, parseProcessedWithdrawal,
      HistorySync.parseManualDeposit, arguments_read h8 (orFail_ok.mp hread), Option.map_some]
    split <;> rfl
  case h_1 =>
    obtain ⟨_, -, rfl⟩ := map_ok.mp hi
    rfl
  case h_5 | h_7 | h_11 =>
    cases hi
    rfl
  case h_8 | h_10 =>
    obtain ⟨-, rfl⟩ := by simpa only [bind_ok, ensure_ok, exists_const, pure_ok] using hi
    rfl
  case h_9 =>
    obtain ⟨fixed, extra, hread, rfl⟩ := by simpa only [bind_ok, pure_ok, Prod.exists] using hi
    obtain ⟨hlen, rfl, rfl⟩ := reorgBlockUpdateReader_eq (orFail_ok.mp hread)
    rw [List.length_drop] at hlen
    have hargs : arguments ix.data BlockUpdateFixedData.pod = some (BlockUpdateFixedData.pod.decode
        (slice ix.data 8 BlockUpdateFixedData.pod.size)) := if_neg (by omega)
    rw [readingOf, readAt, readBlockUpdate, hargs, slice_drop, List.drop_drop]
    rfl
  case h_12 => cases hi

def isUpdate : BridgeInstruction → Bool
  | .blockUpdate _ _ _ => true
  | .processReorgBlocks _ _ _ _ => true
  | _ => false

def isUpdateKind (kind : ℕ) : Bool := kind == 1 || kind == 8

theorem isUpdate_unpack {data : Bytes} (hi : unpack data = .ok i) :
    isUpdate i = isUpdateKind (data.getD 0 0).toNat ∧
      (isUpdate i = true → 8 + BlockUpdateFixedData.pod.size ≤ data.length) := by
  simp only [unpack, bind_ok, ensure_ok, exists_const] at hi
  obtain ⟨-, h8, hi⟩ := hi
  generalize (data.getD 0 0).toNat = b at hi
  split at hi
  case h_2 =>
    obtain ⟨_, hread, rfl⟩ := map_ok.mp hi
    have hlen := congrArg List.length (Pod.read_eq_some.mp (orFail_ok.mp hread))
    rw [List.length_drop, Pod.encode_length] at hlen
    exact ⟨rfl, fun _ => by omega⟩
  case h_1 | h_3 | h_4 | h_6 =>
    obtain ⟨_, -, rfl⟩ := map_ok.mp hi
    exact ⟨rfl, fun h => by cases h⟩
  case h_5 | h_7 | h_11 =>
    cases hi
    exact ⟨rfl, fun h => by cases h⟩
  case h_8 | h_10 =>
    obtain ⟨-, rfl⟩ := by simpa only [bind_ok, ensure_ok, exists_const, pure_ok] using hi
    exact ⟨rfl, fun h => by cases h⟩
  case h_9 =>
    obtain ⟨fixed, extra, hread, rfl⟩ := by simpa only [bind_ok, pure_ok, Prod.exists] using hi
    have hlen := (reorgBlockUpdateReader_eq (orFail_ok.mp hread)).1
    rw [List.length_drop] at hlen
    exact ⟨rfl, fun _ => by omega⟩
  case h_12 => cases hi

theorem isBlockUpdateData_eq {data : Bytes} (h8 : 8 ≤ data.length) :
    isBlockUpdateData data = isUpdateKind (data.getD 4 0).toNat := by
  rw [isBlockUpdateData, decide_eq_true (by omega), Bool.true_and]
  have hbyte (n : ℕ) (hn : n < 256) : (data.getD 4 0 == UInt8.ofNat n) =
      ((data.getD 4 0).toNat == n) := by
    rw [Bool.eq_iff_iff, beq_iff_eq, beq_iff_eq, ← UInt8.toNat_inj, UInt8.toNat_ofNat_of_lt' hn]
  exact congrArg₂ (· || ·) (hbyte 1 (by decide)) (hbyte 8 (by decide))

theorem parseOperatorInstruction_isBlockUpdate {parsed : ParsedOperatorTx}
    (ha : accountKeys[ix.programIdIndex.toNat]? = some config.programId)
    (h8 : 8 ≤ ix.data.length) :
    (parseOperatorInstruction config accountKeys parsed ix).isBlockUpdate =
      (parsed.isBlockUpdate || isUpdateKind (ix.data.getD 4 0).toNat) := by
  rw [ParsedOperations.parseOperatorInstruction_eq, ParsedOperations.grouped_update]
  simp [ParsedOperations.isUpdate, ha, isBlockUpdateData_eq h8]

def argumentsSize : ℕ → Option ℕ
  | 2 => some PsyWithdrawalRequest.pod.size
  | 3 => some ProcessWithdrawalInstructionData.pod.size
  | 5 => some ProcessManualDepositInstructionData.pod.size
  | _ => none

def isRecognized (data : Bytes) (kind : ℕ) : Bool :=
  isUpdateKind kind || (argumentsSize kind).any fun size => decide (8 + size ≤ data.length)

def eventKind : BridgeEvent → ℕ
  | .withdrawalRequested _ => 2
  | .withdrawalProcessed _ => 3
  | .manualDepositClaimed _ => 5

def readingKind : Reading → Option ℕ
  | .update info => some (if info.isReorg then 8 else 1)
  | .record (.withdrawalRequest _) => some 2
  | .record (.processedWithdrawal _) => some 3
  | .record (.manualDeposit _) => some 5
  | .record (.block _) => none

theorem eventAt_kind {e : BridgeEvent}
    (h : eventAt signature slot blockTime accountKeys ix kind = some e) :
    eventKind e = kind := by
  unfold eventAt at h
  split at h
  · obtain ⟨_, -, rfl⟩ := Option.map_eq_some_iff.mp h
    rfl
  · obtain ⟨_, -, rfl⟩ := Option.map_eq_some_iff.mp h
    rfl
  · obtain ⟨_, -, rfl⟩ := Option.map_eq_some_iff.mp h
    rfl
  · cases h

theorem arguments_isSome {α : Type} {p : Pod α} {data : Bytes} :
    (arguments data p).isSome = decide (8 + p.size ≤ data.length) := by
  rw [arguments]
  split
  · next h => simp [Nat.not_le.mpr h]
  · next h => simp [Nat.not_lt.mp h]

theorem eventAt_isSome :
    (eventAt signature slot blockTime accountKeys ix kind).isSome =
      (argumentsSize kind).any fun size => decide (8 + size ≤ ix.data.length) := by
  unfold eventAt
  split
  · exact Option.isSome_map.trans arguments_isSome
  · exact Option.isSome_map.trans arguments_isSome
  · exact Option.isSome_map.trans arguments_isSome
  · simp [argumentsSize]

theorem readAt_kind {r : Reading}
    (h : (readAt signature slot blockTime accountKeys config ix kind).join = some r) :
    readingKind r = some kind := by
  unfold readAt at h
  split at h
  case h_1 | h_2 =>
    obtain ⟨info, hinfo, rfl⟩ := Option.map_eq_some_iff.mp h
    obtain ⟨_, -, rfl⟩ := Option.map_eq_some_iff.mp hinfo
    rfl
  case h_3 | h_4 | h_5 =>
    split at h
    · obtain ⟨_, hread, rfl⟩ := Option.map_eq_some_iff.mp h
      obtain ⟨_, -, rfl⟩ := Option.map_eq_some_iff.mp hread
      rfl
    · cases h
  case h_6 => cases h

theorem readAt_update (hkind : isUpdateKind kind = true)
    (hlen : 8 + BlockUpdateFixedData.pod.size ≤ ix.data.length) :
    (readAt signature slot blockTime accountKeys config ix kind).join.isSome = true := by
  have hargs : (arguments ix.data BlockUpdateFixedData.pod).isSome = true := by
    rw [arguments_isSome, decide_eq_true hlen]
  rcases (by simpa [isUpdateKind] using hkind : kind = 1 ∨ kind = 8) with rfl | rfl
  all_goals exact Option.isSome_map.trans (Option.isSome_map.trans hargs)

theorem readAt_none (hkind : isRecognized ix.data kind = false) :
    (readAt signature slot blockTime accountKeys config ix kind).join = none := by
  unfold readAt
  split
  case h_1 | h_2 => cases hkind
  case h_3 | h_4 | h_5 =>
    split
    · exact Option.map_eq_none_iff.mpr (Option.map_eq_none_iff.mpr
        (if_pos (by simpa [isRecognized, isUpdateKind, argumentsSize] using hkind)))
    · rfl
  case h_6 => rfl

theorem eventAt_none (hkind : isRecognized ix.data kind = false) :
    eventAt signature slot blockTime accountKeys ix kind = none := by
  rw [← Option.not_isSome_iff_eq_none, eventAt_isSome, (Bool.or_eq_false_iff.mp hkind).2]
  exact Bool.false_ne_true

/-- Two discriminators under which all decoders read the same, if one is recognised. -/
theorem same_kind (hrecognized : isRecognized ix.data kind = true)
    (hlen : isUpdateKind other = true → isUpdateKind kind = true →
      8 + BlockUpdateFixedData.pod.size ≤ ix.data.length)
    (hevent : eventAt signature slot blockTime accountKeys ix kind =
      eventAt signature slot blockTime accountKeys ix other)
    (hread : (readAt signature slot blockTime accountKeys config ix kind).join =
      (readAt signature slot blockTime accountKeys config ix other).join)
    (hupdate : isUpdateKind kind = isUpdateKind other) : kind = other := by
  rcases Bool.or_eq_true_iff.mp hrecognized with hkind | hargs
  · -- a block update and a reorg are told apart by what is read
    obtain ⟨r, hr⟩ := Option.isSome_iff_exists.mp
      (readAt_update hkind (hlen (hupdate.symm.trans hkind) hkind))
    exact Option.some.inj ((readAt_kind hr).symm.trans (readAt_kind (hread ▸ hr)))
  · obtain ⟨e, he⟩ := Option.isSome_iff_exists.mp (eventAt_isSome.trans hargs)
    exact (eventAt_kind he).symm.trans (eventAt_kind (hevent ▸ he))

structure Agree (signature : Signature) (slot : UInt64) (blockTime : Option ℤ)
    (accountKeys : List Pubkey) (config : HistorySyncConfig) (ix : CompiledInstruction)
    (i : BridgeInstruction) : Prop where
  monitor : parseInstruction signature slot blockTime accountKeys config.programId ix =
    eventOf signature slot blockTime ix.accounts accountKeys i
  history : (HistorySync.processInstruction signature slot blockTime accountKeys config ix).join =
    readingOf signature slot blockTime accountKeys config ix.accounts i
  operator : ∀ parsed, (parseOperatorInstruction config accountKeys parsed ix).isBlockUpdate =
    (parsed.isBlockUpdate || isUpdate i)

/-- Byte 4 repeats byte 0, or neither is the discriminator of a kind that a decoder looks for. -/
def Consistent (data : Bytes) : Prop :=
  data.getD 4 0 = data.getD 0 0 ∨
    isRecognized data (data.getD 0 0).toNat = false ∧
      isRecognized data (data.getD 4 0).toNat = false

instance (data : Bytes) : Decidable (Consistent data) := inferInstanceAs (Decidable (_ ∨ _))

/-- The decoders agree with the bridge on exactly the consistent data. -/
theorem decoders_agree_iff (ha : accountKeys[ix.programIdIndex.toNat]? = some config.programId)
    (hi : unpack ix.data = .ok i) :
    Agree signature slot blockTime accountKeys config ix i ↔ Consistent ix.data := by
  have h8 := unpack_long hi
  obtain ⟨hupdate, hlen⟩ := isUpdate_unpack hi
  constructor
  · rintro ⟨hmonitor, hhistory, hoperator⟩
    rw [parseInstruction_eq ha h8, eventOf_unpack hi] at hmonitor
    rw [processInstruction_eq ha h8, readingOf_unpack hi] at hhistory
    have hflag := hoperator ⟨0, false, [], [], [], []⟩
    rw [parseOperatorInstruction_isBlockUpdate ha h8, hupdate, Bool.false_or, Bool.false_or]
      at hflag
    rcases Bool.eq_false_or_eq_true (isRecognized ix.data (ix.data.getD 4 0).toNat) with h₄ | h₄
    · have hsame := same_kind h₄ (fun h _ => hlen (hupdate.trans h)) hmonitor hhistory hflag
      exact .inl (UInt8.toNat_inj.mp hsame)
    rcases Bool.eq_false_or_eq_true (isRecognized ix.data (ix.data.getD 0 0).toNat) with h₀ | h₀
    · have hsame := same_kind h₀ (fun _ h => hlen (hupdate.trans h)) hmonitor.symm hhistory.symm
        hflag.symm
      exact .inl (UInt8.toNat_inj.mp hsame).symm
    · exact .inr ⟨h₀, h₄⟩
  · rintro (hbyte | ⟨h₀, h₄⟩)
    · refine ⟨?_, ?_, fun parsed => ?_⟩
      · rw [parseInstruction_eq ha h8, eventOf_unpack hi, hbyte]
      · rw [processInstruction_eq ha h8, readingOf_unpack hi, hbyte]
      · rw [parseOperatorInstruction_isBlockUpdate ha h8, hupdate, hbyte]
    · refine ⟨?_, ?_, fun parsed => ?_⟩
      · rw [parseInstruction_eq ha h8, eventOf_unpack hi, eventAt_none h₀, eventAt_none h₄]
      · rw [processInstruction_eq ha h8, readingOf_unpack hi, readAt_none h₀, readAt_none h₄]
      · rw [parseOperatorInstruction_isBlockUpdate ha h8, hupdate, (Bool.or_eq_false_iff.mp h₀).1,
          (Bool.or_eq_false_iff.mp h₄).1]

def sampleConfig : HistorySyncConfig :=
  .new DOGE_BRIDGE_PROGRAM_ID PENDING_MINT_BUFFER_BUILDER_PROGRAM_ID TXO_BUFFER_BUILDER_PROGRAM_ID

def sampleSignature : Signature := Vector.replicate 64 9

def clientArguments : PsyWithdrawalRequest := ⟨1000, 0, Vector.replicate 20 1⟩

def clientRequest : CompiledInstruction :=
  ⟨0, [1, 2, 3], InstructionCodec.instructionData (.requestWithdrawal clientArguments)⟩

theorem client_request_agrees :
    Agree sampleSignature 7 none [DOGE_BRIDGE_PROGRAM_ID] sampleConfig
      clientRequest (.requestWithdrawal clientArguments) := by
  have hunpack : unpack clientRequest.data = .ok (.requestWithdrawal clientArguments) :=
    InstructionCodec.unpack_instructionData (.requestWithdrawal clientArguments)
  exact (decoders_agree_iff rfl hunpack).mpr (.inl rfl)

/-- The request of a client that leaves the bytes behind the discriminator zero. -/
def paddedRequest : CompiledInstruction :=
  ⟨0, [1, 2, 3, 4, 5], 2 :: (List.replicate 7 0 ++ PsyWithdrawalRequest.pod.encode sampleRequest)⟩

def requestKeys : List Pubkey :=
  [DOGE_BRIDGE_PROGRAM_ID, bridgeState, strangerTokens, mintKey, strangerKey, TOKEN_PROGRAM_ID]

/-- The bridge accepts it, and neither the monitor nor the history client sees it. -/
theorem padded_request_unseen :
    (∃ es l₁ l₂ effects,
      Step cluster (tokenLedger mintKey) (.bridge (genesisCall es (tokenLedger mintKey) l₁)) l₁ ∧
      BridgeProcessor.processInstruction cluster (requestInvocation cluster mintKey) l₁
        paddedRequest.data = .ok (l₂, effects)) ∧
      unpack paddedRequest.data = .ok (.requestWithdrawal sampleRequest) ∧
      parseInstruction sampleSignature 7 none requestKeys DOGE_BRIDGE_PROGRAM_ID paddedRequest =
        none ∧
      HistorySync.processInstruction sampleSignature 7 none requestKeys sampleConfig
        paddedRequest = none ∧
      ¬ Agree sampleSignature 7 none requestKeys sampleConfig
        paddedRequest (.requestWithdrawal sampleRequest) := by
  have hunpack : unpack paddedRequest.data = .ok (.requestWithdrawal sampleRequest) := by
    simp [unpack, paddedRequest]
  have hmonitor : parseInstruction sampleSignature 7 none requestKeys DOGE_BRIDGE_PROGRAM_ID
      paddedRequest = none := parseInstruction_eq rfl (unpack_long hunpack)
  refine ⟨?_, hunpack, hmonitor, ?_, fun h => ?_⟩
  · obtain ⟨es, l₁, h₁, hl₁⟩ := genesis_step (tokenLedger_unused mintKey)
    obtain ⟨core, hrun, -⟩ := genesis_requested
    obtain ⟨effects, l₂, h₂, -⟩ := cluster_request (.inl rfl) (hl₁ ▸ install_holds _ _ _)
      (hl₁ ▸ cluster_install_of_ne (by decide)) (hl₁ ▸ cluster_install_of_ne (by decide)) hrun
    obtain ⟨-, -, -, ha⟩ := h₂.accepted
    exact ⟨es, l₁, l₂, effects, h₁, AcceptedInstructions.processInstruction_ok.mpr
      ⟨_, hunpack, ha⟩⟩
  · rw [HistorySync.processInstruction, if_neg (by decide), if_neg (by decide +kernel)]
    rfl
  · cases hmonitor.symm.trans h.monitor

end DecoderAgreement
