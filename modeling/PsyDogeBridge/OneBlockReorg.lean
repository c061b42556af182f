import PsyDogeBridge.LocalCluster

/-! A reorganisation without extra blocks beside an update by one block: what each of them checks
and what each of them leaves. -/
namespace OneBlockReorg

open PodLayout CheckedSteps BridgeData MintGroups ProgramState BlockTransition TransitionFacts
  FinalizedBlockMintTxoManager LocalCluster

variable {c : Crypto} {s s' s₁ s₂ : PsyBridgeProgramState} {proof vk proof' vk' : Bytes}
  {h : PsyBridgeHeader} {bridge account : Vector UInt8 32} {txoMem mintMem : Bytes} {count : UInt16}

structure BuffersMatch (c : Crypto) (h : PsyBridgeHeader) (bridge : Vector UInt8 32)
    (txoMem mintMem : Bytes) (count : UInt16) : Prop where
  nonempty : (headerInfo h).isEmpty = false
  mints : MintBufferMatches c bridge h.finalizedState.pendingMintsFinalizedHash mintMem count
  txos : TxoBufferMatches c h.finalizedState.txoOutputListFinalizedHash
    h.finalizedState.blockHeight txoMem count

/-- What an update by one block checks, its height and its proof apart. -/
structure SingleChecks (c : Crypto) (s : PsyBridgeProgramState) (proof vk : Bytes)
    (h : PsyBridgeHeader) (bridge : Vector UInt8 32) (txoMem mintMem : Bytes) : Prop where
  header : HeaderAdvances s proof vk h
  few : ¬ newAutoClaims s h > 65535
  ring : s.nextRecentFinalizedBlockIndex.toNat < 8
  buffers : newAutoClaims s h = 0 ∧
      h.finalizedState.pendingMintsFinalizedHash = PM_DA_DEFAULT_PENDING_MINTS_BUFFER_HASH ∨
    newAutoClaims s h ≠ 0 ∧ (txoBufferHeader txoMem).dataSize ≠ 0 ∧
      BuffersMatch c h bridge txoMem mintMem (newAutoClaims s h).toUInt16

/-- What a reorganisation without extra blocks checks, its height and its proof apart. -/
structure ReorgChecks (c : Crypto) (s : PsyBridgeProgramState) (proof vk : Bytes)
    (h : PsyBridgeHeader) (bridge : Vector UInt8 32) (txoMem mintMem : Bytes) : Prop where
  header : HeaderAdvances s proof vk h
  buffers : (headerInfo h).isEmpty = true ∨
    BuffersMatch c h bridge txoMem mintMem (mintBufferHeader mintMem).pendingMintsCount

def openedBy (s : PsyBridgeProgramState) (h : PsyBridgeHeader) (account : Vector UInt8 32)
    (count : UInt16) : FinalizedBlockMintTxoManager :=
  s.pendingMintTxos.opened h.finalizedState.blockHeight [headerInfo h] account count.toUInt32
    (computeMintGroupInfo count).1.toUInt32

theorem opens_iff {m : FinalizedBlockMintTxoManager} (hready : s.isReadyForNewBlockUpdate = true) :
    Opens c s.pendingMintTxos h.finalizedState.blockHeight [headerInfo h] bridge account txoMem
        mintMem count m ↔
      BuffersMatch c h bridge txoMem mintMem count ∧ m = openedBy s h account count := by
  constructor
  · intro ho
    obtain ⟨e, rest, hitems, hnonempty, hmints, htxos⟩ := ho.head
    cases hitems
    exact ⟨⟨hnonempty, hmints, htxos⟩, ho.eq⟩
  · rintro ⟨hb, hm⟩
    exact ⟨hready, ⟨_, _, rfl, hb.nonempty, hb.mints, hb.txos⟩, Nat.le_add_left 1 7, hm⟩

theorem setRecentFinalizedBlock_ok {b : PsyBridgeStateCommitment}
    {recent : Vector PsyBridgeStateCommitment 8} :
    setRecentFinalizedBlock s b = .ok recent ↔
      ∃ hring : s.nextRecentFinalizedBlockIndex.toNat < 8,
        recent = s.recentFinalizedBlocks.set s.nextRecentFinalizedBlockIndex.toNat b := by
  unfold setRecentFinalizedBlock
  by_cases hring : s.nextRecentFinalizedBlockIndex.toNat < 8
  · rw [dif_pos hring, pure_ok]
    constructor
    · intro heq
      exact ⟨hring, heq.symm⟩
    · rintro ⟨_, heq⟩
      exact heq.symm
  · rw [dif_neg hring]
    constructor
    · intro heq
      cases heq
    · rintro ⟨hlt, -⟩
      exact absurd hlt hring

theorem reorgBacklog_one {m : FinalizedBlockMintTxoManager}
    (hready : s.isReadyForNewBlockUpdate = true) :
    ReorgBacklog c s h [headerInfo h] bridge account txoMem mintMem m ↔
      (headerInfo h).isEmpty = true ∧ m = s.pendingMintTxos ∨
      BuffersMatch c h bridge txoMem mintMem (mintBufferHeader mintMem).pendingMintsCount ∧
        m = openedBy s h account (mintBufferHeader mintMem).pendingMintsCount := by
  have hlast : backlogHeight h [headerInfo h].length 0 = h.finalizedState.blockHeight := by
    have hzero : UInt32.ofNat [headerInfo h].length - UInt32.ofNat 0 - 1 = 0 := by
      rw [List.length_singleton]
      decide
    rw [backlogHeight, hzero, UInt32.sub_zero]
  constructor
  · intro hb
    cases hb with
    | kept empty eq => exact .inl ⟨empty _ (List.mem_singleton_self _), eq⟩
    | @opens first count inside skipped opens =>
      obtain rfl : first = 0 := Nat.lt_one_iff.mp inside
      rw [hlast, List.drop_zero, opens_iff hready] at opens
      obtain ⟨hmatch, hm⟩ := opens
      rw [hmatch.mints.count_eq]
      exact .inr ⟨hmatch, hm⟩
  · rintro (⟨hempty, hm⟩ | hopens)
    · exact .kept (List.forall_mem_singleton.mpr hempty) hm
    · rw [← opens_iff hready, ← hlast] at hopens
      have hskipped : ∀ e ∈ [headerInfo h].take 0, e.isEmpty = true := by
        intro e he
        cases he
      exact .opens Nat.one_pos hskipped hopens

section Accepted

variable (height : h.finalizedState.blockHeight.toNat =
  s.bridgeHeader.finalizedState.blockHeight.toNat + 1)

include height

theorem height_succ :
    h.finalizedState.blockHeight = s.bridgeHeader.finalizedState.blockHeight + 1 := by
  have hlt := h.finalizedState.blockHeight.toNat_lt
  have hone : (1 : UInt32).toNat = 1 := rfl
  apply UInt32.toNat_inj.mp
  rw [UInt32.toNat_add, hone]
  omega

theorem single_accepts_iff (verified : c.verifyCompactZkpSlice proof vk
      (getBlockTransitionPublicInputs c (s.bridgeHeader.getHashCanonical c) (h.getHashCanonical c)
        (s.configParams.getHash c) s.custodianWalletConfigHash).toList = true) :
    (∃ s', runStandardSingleBlockTransition c s proof vk h bridge account txoMem mintMem = .ok s') ↔
      SingleChecks c s proof vk h bridge txoMem mintMem := by
  simp only [runStandardSingleBlockTransition_ok]
  constructor
  · rintro ⟨s', hheader, -, hfew, -, m, recent, hbacklog, hrecent, -⟩
    obtain ⟨hring, -⟩ := setRecentFinalizedBlock_ok.mp hrecent
    refine ⟨hheader, hfew, hring, ?_⟩
    cases hbacklog with
    | kept same hash _ => exact .inl ⟨same, hash⟩
    | opens raised data opens =>
      exact .inr ⟨raised, data, ((opens_iff hheader.ready).mp opens).1⟩
  · intro hs
    obtain ⟨m, hbacklog⟩ : ∃ m, SingleBacklog c s h bridge account txoMem mintMem m := by
      rcases hs.buffers with ⟨same, hash⟩ | ⟨raised, data, hmatch⟩
      · exact ⟨_, .kept same hash rfl⟩
      · exact ⟨_, .opens raised data ((opens_iff hs.header.ready).mpr ⟨hmatch, rfl⟩)⟩
    exact ⟨_, hs.header, height_succ height, hs.few, verified, m, _, hbacklog,
      setRecentFinalizedBlock_ok.mpr ⟨hs.ring, rfl⟩, rfl⟩

theorem reorg_accepts_iff (verified : c.verifyCompactZkpSlice proof vk
      (getReorgBlockTransitionPublicInputs c (s.bridgeHeader.getHashCanonical c)
        (h.getHashCanonical c) [] (s.configParams.getHash c) s.custodianWalletConfigHash).toList =
      true) :
    (∃ s', runBlockTransitionReorg c s proof vk h [] bridge account txoMem mintMem = .ok s') ↔
      ReorgChecks c s proof vk h bridge txoMem mintMem := by
  simp only [runBlockTransitionReorg_ok]
  constructor
  · rintro ⟨s', hheader, -, -, -, m, hbacklog, -⟩
    rcases (reorgBacklog_one hheader.ready).mp hbacklog with ⟨hempty, -⟩ | ⟨hmatch, -⟩
    · exact ⟨hheader, .inl hempty⟩
    · exact ⟨hheader, .inr hmatch⟩
  · intro hr
    obtain ⟨m, hbacklog⟩ : ∃ m, ReorgBacklog c s h [headerInfo h] bridge account txoMem
      mintMem m := by
      rcases hr.buffers with hempty | hmatch
      · exact ⟨_, (reorgBacklog_one hr.header.ready).mpr (.inl ⟨hempty, rfl⟩)⟩
      · exact ⟨_, (reorgBacklog_one hr.header.ready).mpr (.inr ⟨hmatch, rfl⟩)⟩
    have habove : ¬ h.finalizedState.blockHeight ≤ s.bridgeHeader.finalizedState.blockHeight := by
      rw [UInt32.le_iff_toNat_le]
      omega
    have hextra : (h.finalizedState.blockHeight - s.bridgeHeader.finalizedState.blockHeight -
        1).toNat = 0 := by
      rw [height_succ height, UInt32.add_comm, UInt32.add_sub_cancel]
      rfl
    exact ⟨_, hr.header, habove, hextra.symm, verified, m, hbacklog, rfl⟩

end Accepted

/-- The two agree: both accept or both refuse, and where both accept they leave the same state. -/
def Agree (r₁ r₂ : QDogeResult PsyBridgeProgramState) : Prop :=
  ((∃ s₁, r₁ = .ok s₁) ↔ ∃ s₂, r₂ = .ok s₂) ∧ ∀ s₁ s₂, r₁ = .ok s₁ → r₂ = .ok s₂ → s₁ = s₂

theorem accepted_differ
    (h₁ : runStandardSingleBlockTransition c s proof vk h bridge account txoMem mintMem = .ok s₁)
    (h₂ : runBlockTransitionReorg c s proof' vk' h [] bridge account txoMem mintMem = .ok s₂) :
    s₁ ≠ s₂ := by
  obtain ⟨-, -, -, -, m, recent, -, hrecent, rfl⟩ := runStandardSingleBlockTransition_ok.mp h₁
  obtain ⟨-, -, -, -, m', -, rfl⟩ := runBlockTransitionReorg_ok.mp h₂
  obtain ⟨hring, -⟩ := setRecentFinalizedBlock_ok.mp hrecent
  intro heq
  have hnext : (s.nextRecentFinalizedBlockIndex + 1) % 8 = s.nextRecentFinalizedBlockIndex :=
    congrArg PsyBridgeProgramState.nextRecentFinalizedBlockIndex heq
  have height : (8 : UInt32).toNat = 8 := rfl
  have hone : (1 : UInt32).toNat = 1 := rfl
  rw [← UInt32.toNat_inj, UInt32.toNat_mod, UInt32.toNat_add, height, hone] at hnext
  omega

/-- The two agree on the blocks that both refuse, and on no others. -/
theorem one_block_reorg_agrees_iff
    (height : h.finalizedState.blockHeight.toNat =
      s.bridgeHeader.finalizedState.blockHeight.toNat + 1)
    (verified : c.verifyCompactZkpSlice proof vk
      (getBlockTransitionPublicInputs c (s.bridgeHeader.getHashCanonical c) (h.getHashCanonical c)
        (s.configParams.getHash c) s.custodianWalletConfigHash).toList = true)
    (verified' : c.verifyCompactZkpSlice proof' vk'
      (getReorgBlockTransitionPublicInputs c (s.bridgeHeader.getHashCanonical c)
        (h.getHashCanonical c) [] (s.configParams.getHash c) s.custodianWalletConfigHash).toList =
      true) :
    Agree (runStandardSingleBlockTransition c s proof vk h bridge account txoMem mintMem)
        (runBlockTransitionReorg c s proof' vk' h [] bridge account txoMem mintMem) ↔
      ¬ SingleChecks c s proof vk h bridge txoMem mintMem ∧
        ¬ ReorgChecks c s proof' vk' h bridge txoMem mintMem := by
  rw [Agree, single_accepts_iff height verified, reorg_accepts_iff height verified']
  constructor
  · rintro ⟨halike, hsame⟩
    have hneither : ¬ SingleChecks c s proof vk h bridge txoMem mintMem := by
      intro hsingle
      obtain ⟨s₁, h₁⟩ := (single_accepts_iff height verified).mpr hsingle
      obtain ⟨s₂, h₂⟩ := (reorg_accepts_iff height verified').mpr (halike.mp hsingle)
      exact accepted_differ h₁ h₂ (hsame s₁ s₂ h₁ h₂)
    exact ⟨hneither, fun hreorg => hneither (halike.mpr hreorg)⟩
  · rintro ⟨hsingle, hreorg⟩
    refine ⟨iff_of_false hsingle hreorg, ?_⟩
    intro s₁ s₂ h₁ _
    exact absurd ((single_accepts_iff height verified).mp ⟨s₁, h₁⟩) hsingle

def sampleProof : Bytes := List.replicate 256 0
def sampleKey : Bytes := List.replicate 32 0

def staleTip : PsyBridgeHeader := { headerAt 11 with tipState := (headerAt 10).tipState }

theorem stale_tip_refused_alike :
    Agree (runStandardSingleBlockTransition crypto (genesisState operatorKey 10).coreState
        sampleProof sampleKey staleTip bridgeState mintBufferKey [] [])
      (runBlockTransitionReorg crypto (genesisState operatorKey 10).coreState sampleProof sampleKey
        staleTip [] bridgeState mintBufferKey [] []) := by
  have htip : staleTip.tipState.blockHeight ≤
      (genesisState operatorKey 10).coreState.bridgeHeader.tipState.blockHeight := by decide
  refine (one_block_reorg_agrees_iff rfl rfl rfl).mpr ⟨?_, ?_⟩
  · intro hs
    exact hs.header.tip htip
  · intro hr
    exact hr.header.tip htip

theorem headerAt_advances : HeaderAdvances (genesisState operatorKey 10).coreState sampleProof
    sampleKey (headerAt 11) := by
  refine ⟨rfl, List.length_replicate, List.length_replicate, ?_, ?_⟩
  · decide
  · decide

/-- A block without deposits, with a hash for a list of outputs that nobody sent. -/
def strayOutputs : PsyBridgeHeader :=
  { headerAt 11 with
    finalizedState :=
      { (headerAt 11).finalizedState with txoOutputListFinalizedHash := zeroBytes } }

/-- After an empty block the two states differ; the stray hash only the single block accepts. -/
theorem empty_block_differs :
    (∃ s₁ s₂, runStandardSingleBlockTransition crypto (genesisState operatorKey 10).coreState
          sampleProof sampleKey (headerAt 11) bridgeState mintBufferKey [] [] = .ok s₁ ∧
        runBlockTransitionReorg crypto (genesisState operatorKey 10).coreState sampleProof sampleKey
          (headerAt 11) [] bridgeState mintBufferKey [] [] = .ok s₂ ∧ s₁ ≠ s₂) ∧
      (∃ s₁, runStandardSingleBlockTransition crypto (genesisState operatorKey 10).coreState
          sampleProof sampleKey strayOutputs bridgeState mintBufferKey [] [] = .ok s₁) ∧
      ∀ s₂, runBlockTransitionReorg crypto (genesisState operatorKey 10).coreState sampleProof
          sampleKey strayOutputs [] bridgeState mintBufferKey [] [] ≠ .ok s₂ := by
  have hfew : ¬ newAutoClaims (genesisState operatorKey 10).coreState (headerAt 11) > 65535 := by
    decide
  have hring : (genesisState operatorKey 10).coreState.nextRecentFinalizedBlockIndex.toNat < 8 := by
    decide
  refine ⟨?_, ?_, ?_⟩
  · have hempty : (headerInfo (headerAt 11)).isEmpty = true := by decide
    obtain ⟨s₁, h₁⟩ : ∃ s₁, runStandardSingleBlockTransition crypto _ sampleProof sampleKey _
        bridgeState mintBufferKey [] [] = .ok s₁ :=
      (single_accepts_iff rfl rfl).mpr ⟨headerAt_advances, hfew, hring, .inl ⟨rfl, rfl⟩⟩
    obtain ⟨s₂, h₂⟩ : ∃ s₂, runBlockTransitionReorg crypto _ sampleProof sampleKey _ []
        bridgeState mintBufferKey [] [] = .ok s₂ :=
      (reorg_accepts_iff rfl rfl).mpr ⟨headerAt_advances, .inl hempty⟩
    exact ⟨s₁, s₂, h₁, h₂, accepted_differ h₁ h₂⟩
  · have hheader : HeaderAdvances (genesisState operatorKey 10).coreState sampleProof sampleKey
        strayOutputs :=
      ⟨rfl, headerAt_advances.proofSize, headerAt_advances.keySize, headerAt_advances.tip,
        headerAt_advances.index⟩
    exact (single_accepts_iff rfl rfl).mpr ⟨hheader, hfew, hring, .inl ⟨rfl, rfl⟩⟩
  · intro s₂ h₂
    obtain ⟨-, hempty | hmatch⟩ := (reorg_accepts_iff rfl rfl).mp ⟨s₂, h₂⟩
    · exact absurd hempty (by decide)
    · exact absurd hmatch.mints.long (by simp)

end OneBlockReorg
