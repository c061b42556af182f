import PsyDogeBridge.RecordedBuffer

/-! The ring of recent finalized blocks over whole runs. Only single blocks are entered in it. -/
namespace RecentBlocks

open CheckedSteps SolanaRuntime BridgeData MintGroups ProgramState BlockTransition BridgeCalls
  BridgeProcessor BridgeSystem LocalCluster StateHistory StateRuns BacklogSteps RecordedBuffer

variable {env : BridgeEnv} {st st' : BridgeState} {es : List Event}

def finalizedBy : BridgeCall → Option PsyBridgeStateCommitment
  | { ix := .blockUpdate fixed _ _, .. } => some fixed.header.finalizedState
  | { ix := .processReorgBlocks fixed _ _ _, .. } => some fixed.header.finalizedState
  | _ => none

def finalized (cs : List BridgeCall) : List PsyBridgeStateCommitment := cs.filterMap finalizedBy

/-- Update number `k` of the last eight is in slot `k` modulo 8, and the next slot is free. -/
structure RingHolds (s : PsyBridgeProgramState) (us : List PsyBridgeStateCommitment) : Prop where
  next : s.nextRecentFinalizedBlockIndex.toNat = us.length % 8
  recent : ∀ k u, us.length ≤ k + 8 → us[k]? = some u →
    s.recentFinalizedBlocks.toList[k % 8]? = some u

def reorganises (env : BridgeEnv) : Event → Prop
  | .bridge call => call.on (BridgeEnv.pda env) ∧
      ∃ fixed extra mintBump txoBump, call.ix = .processReorgBlocks fixed extra mintBump txoBump
  | _ => False

theorem RingHolds.push {s : PsyBridgeProgramState} {us : List PsyBridgeStateCommitment}
    {u : PsyBridgeStateCommitment} {recent : Vector PsyBridgeStateCommitment 8} (h : RingHolds s us)
    (hset : setRecentFinalizedBlock s u = .ok recent) (m : FinalizedBlockMintTxoManager)
    (header : PsyBridgeHeader) :
    RingHolds { s with
      pendingMintTxos := m
      bridgeHeader := header
      recentFinalizedBlocks := recent
      nextRecentFinalizedBlockIndex := (s.nextRecentFinalizedBlockIndex + 1) % 8 } (us ++ [u]) := by
  have height : (8 : UInt32).toNat = 8 := rfl
  have hone : (1 : UInt32).toNat = 1 := rfl
  unfold setRecentFinalizedBlock at hset
  split at hset
  · next hlt =>
    rw [pure_ok] at hset
    constructor
    · change ((s.nextRecentFinalizedBlockIndex + 1) % 8).toNat = _
      rw [UInt32.toNat_mod, UInt32.toNat_add, h.next, hone, height, List.length_append,
        List.length_singleton]
      omega
    · intro k w hk hw
      rw [List.length_append, List.length_singleton] at hk
      rw [← hset]
      dsimp only
      rw [Vector.toList_set, List.getElem?_set, Vector.length_toList, h.next]
      -- The new block is the last one; the others are as they were.
      rcases Nat.lt_or_ge k us.length with hold | hnew
      · rw [List.getElem?_append_left hold] at hw
        rw [if_neg (by omega)]
        exact h.recent k w (by omega) hw
      · rw [List.getElem?_append_right hnew, List.getElem?_singleton] at hw
        split at hw
        · next hlast =>
          rw [if_pos (by congr 1; omega), if_pos (Nat.mod_lt _ (by decide))]
          exact hw
        · cases hw
  · cases hset

theorem CallStep.ring {call : BridgeCall} {us : List PsyBridgeStateCommitment}
    (h : CallStep env st call st') (hinit : notInit call)
    (hsingle : ∀ fixed extra mintBump txoBump,
      call.ix ≠ .processReorgBlocks fixed extra mintBump txoBump)
    (hring : RingHolds st.coreState us) :
    RingHolds st'.coreState (us ++ (finalizedBy call).toList) := by
  obtain ⟨inv, ix, effects, l, l'⟩ := call
  have hkept : RingHolds st.coreState (us ++ []) := by
    rw [List.append_nil]
    exact hring
  cases StateStep.update h.step with
  | initializeBridge params => exact absurd rfl (hinit params)
  | blockUpdate ring => exact hring.push ring _ _
  | processReorgBlocks => exact absurd rfl (hsingle _ _ _ _)
  | _ => exact ⟨hkept.next, hkept.recent⟩

theorem run_ring {cs : List BridgeCall} (r : Run (CallStep env) st cs st')
    (hinit : ∀ call ∈ cs, notInit call)
    (hsingle : ∀ call ∈ cs, ∀ fixed extra mintBump txoBump,
      call.ix ≠ .processReorgBlocks fixed extra mintBump txoBump)
    (hring : RingHolds st.coreState []) : RingHolds st'.coreState (finalized cs) := by
  refine (r.restrict fun call hcall => And.intro (hinit call hcall) (hsingle call hcall)).history
    (P := fun _ cs st' => RingHolds st'.coreState (finalized cs)) hring ?_
  intro cs st₁ call st₂ _ ih ⟨hstep, hni, hns⟩
  rw [finalized, List.filterMap_append]
  exact CallStep.ring hstep hni hns ih

/-- In a run whose accepted updates are all by single blocks, the ring holds the last eight of
them. -/
theorem ring_of_single_blocks {call : BridgeCall} {params : InitializeBridgeInstructionData}
    {l₀ l₁ l₂ : Ledger} (hg : Guarded env.platform) (init : Step env l₀ (.bridge call) l₁)
    (isInit : call.ix = .initializeBridge params) (first : (l₀ (BridgeEnv.pda env)).data = [])
    (r : Run (Step env) l₁ es l₂) (once : ∀ e ∈ es, ¬ isInitialize e)
    (singles : ∀ e ∈ es, ¬ reorganises env e) :
    ∃ st, Holds env l₂ st ∧ RingHolds st.coreState (finalized (calls env es)) := by
  obtain ⟨st, hs, hrun⟩ := state_run hg r (init.initialized hg isInit first)
  refine ⟨st, hs, run_ring hrun (calls_notInit once) ?_ ⟨rfl, ?_⟩⟩
  · intro call hcall fixed extra mintBump txoBump hix
    obtain ⟨hmem, hon⟩ := mem_of_mem_calls hcall
    exact singles _ hmem ⟨hon, fixed, extra, mintBump, txoBump, hix⟩
  · intro k u _ hu
    cases hu

/-- After one accepted reorganisation the ring is still as INITIALIZE left it. -/
theorem reorg_not_in_ring :
    ∃ es₁ l₁ l₂ call,
      Step cluster (bufferLedger (openBuffer 0 []) [])
        (.bridge (genesisCall es₁ (bufferLedger (openBuffer 0 []) []) l₁)) l₁ ∧
      Step cluster l₁ (.bridge call) l₂ ∧
      finalized (calls cluster [.bridge call]) = [emptyReorg.header.finalizedState] ∧
      ∃ st, Holds cluster l₂ st ∧ st.coreState.nextRecentFinalizedBlockIndex = 0 ∧
        emptyReorg.header.finalizedState ∉ st.coreState.recentFinalizedBlocks.toList ∧
        ¬ RingHolds st.coreState (finalized (calls cluster [.bridge call])) := by
  obtain ⟨es₁, _, h₁, rfl⟩ := genesis_step (bufferLedger_unused _ _)
  obtain ⟨es₂, l₂, h₂, hs₂, -⟩ := cluster_update (bufferLedger_mints _ _) (bufferLedger_txos _ _)
    emptyReorg_accepted (by decide)
  have hstep := step_of_accepted rfl (.processReorgBlocks h₂)
  have hfinalized (l : Ledger) :
      finalized (calls cluster [.bridge (reorgCall emptyReorg [emptyInfo] es₂ l l₂)]) =
        [emptyReorg.header.finalizedState] := by
    rw [calls_single]
    · rfl
    · exact updateInvocation_on _ _ _ _
  refine ⟨es₁, _, l₂, _, h₁, hstep, hfinalized _, _, hs₂, rfl, ?_, ?_⟩
  · decide
  · intro hring
    have hnext := hring.next
    rw [hfinalized] at hnext
    exact absurd hnext (by decide)

/-- `ring_of_single_blocks` for the first block of the cluster. -/
theorem first_block_in_ring :
    ∃ es₁ l₁ l₂ call, Step cluster depositLedger (.bridge (genesisCall es₁ depositLedger l₁)) l₁ ∧
      Step cluster l₁ (.bridge call) l₂ ∧ ∃ st, Holds cluster l₂ st ∧
        st.coreState.recentFinalizedBlocks.toList[0]? = some firstBlock.header.finalizedState := by
  have hunused : depositLedger (BridgeEnv.pda cluster) = ⟨SYSTEM_PROGRAM_ID, []⟩ :=
    bufferLedger_unused _ _
  obtain ⟨es₁, _, h₁, rfl⟩ := genesis_step hunused
  obtain ⟨es₂, l₂, core, h₂, -⟩ :=
    firstBlock_updated (bufferLedger_mints _ _) (bufferLedger_txos _ _)
  have hstep := step_of_accepted rfl (.blockUpdate h₂)
  obtain ⟨st, hs, hring⟩ := ring_of_single_blocks cluster_guarded h₁ rfl
    (congrArg Account.data hunused) (.single hstep)
    (by rw [List.forall_mem_singleton]; exact id)
    (by
      rw [List.forall_mem_singleton]
      intro h
      obtain ⟨-, _, _, _, _, hix⟩ := h
      cases hix)
  have hfinalized (l : Ledger) : finalized (calls cluster [.bridge (updateCall es₂ l l₂)]) =
      [firstBlock.header.finalizedState] := by
    rw [calls_single]
    · rfl
    · exact updateInvocation_on _ _ _ _
  refine ⟨es₁, _, l₂, _, h₁, hstep, st, hs, ?_⟩
  rw [hfinalized] at hring
  exact hring.recent 0 _ (by decide) rfl

end RecentBlocks
