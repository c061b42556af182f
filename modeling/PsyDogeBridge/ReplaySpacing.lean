import PsyDogeBridge.SentTransactions

/-! The clock between the replays of a run: the bridge records the time of a replay in
milliseconds, compares that number with the clock in seconds, and may count a replay as one second
later than it is. -/
namespace ReplaySpacing

open PodLayout CheckedSteps SolanaRuntime BridgeData AppendTree ProgramState BridgeCalls
  BridgeProcessor AcceptedInstructions BridgeSystem LocalCluster StateHistory StateRuns
  AppendHistory SentTransactions

variable {env : BridgeEnv} {inv : Invocation} {l l' : Ledger} {e : Event} {es : List Event}
  {st st' : BridgeState} {call : BridgeCall} {cs : List BridgeCall} {effects : List Effect}

def replayClock : BridgeCall → Option ℤ
  | { ix := .replayWithdrawal, inv := inv, .. } => some inv.unixTimestamp
  | _ => none

def eventClock : Event → Option ℤ
  | .bridge call => replayClock call
  | .buffer _ _ | .other => none

def replayTimes (es : List Event) : List ℤ := es.filterMap eventClock

theorem replayClock_some {t : ℤ} :
    replayClock call = some t ↔ call.ix = .replayWithdrawal ∧ call.inv.unixTimestamp = t := by
  obtain ⟨inv, ix, effects, l, l'⟩ := call
  cases ix with
  | replayWithdrawal => exact ⟨fun h => ⟨rfl, Option.some.inj h⟩, fun h => congrArg some h.2⟩
  | _ => exact ⟨fun h => (by cases h), fun h => (by cases h.1)⟩

theorem Accepted.replay_on (hp : inv.programId = DOGE_BRIDGE_PROGRAM_ID)
    (h : Accepted env inv l .replayWithdrawal l' effects) : onAccount inv (BridgeEnv.pda env) := by
  cases h with
  | replayWithdrawal accounts pda =>
    obtain ⟨rest, hacc⟩ := accounts
    rw [hp] at pda
    exact ⟨_, _, hacc, pda⟩

theorem replayTimes_calls (r : Run (Step env) l es l') :
    replayTimes es = (calls env es).filterMap replayClock := by
  rw [replayTimes, calls, List.filterMap_filterMap]
  refine List.filterMap_congr fun e he => ?_
  obtain ⟨l₁, l₂, hstep⟩ := r.step_of_mem he
  cases e with
  | bridge call =>
    by_cases hix : call.ix = .replayWithdrawal
    · obtain ⟨-, -, hp, ha⟩ := hstep.accepted
      rw [hix] at ha
      rw [onState_of_on (Accepted.replay_on hp ha)]
      rfl
    · have hnone : replayClock call = none := by
        rw [Option.eq_none_iff_forall_ne_some]
        intro t ht
        exact hix (replayClock_some.mp ht).1
      rw [eventClock, hnone]
      cases hon : onState env (.bridge call) with
      | none => rfl
      | some call' =>
        obtain ⟨rfl, -⟩ := onState_bridge hon
        exact hnone.symm
  | buffer => rfl
  | other => rfl

/-- A time that the clock of the program can hold, with a second to spare. -/
def InRange (t : ℤ) : Prop := 0 ≤ t ∧ t ≤ 2 ^ 32 - 2

theorem currentTimestamp_eq (h : InRange inv.unixTimestamp) :
    ((currentTimestamp inv).toNat : ℤ) = inv.unixTimestamp := by
  obtain ⟨h₀, h₁⟩ := h
  have hmod : inv.unixTimestamp % 2 ^ 32 = inv.unixTimestamp :=
    Int.emod_eq_of_lt h₀ (by omega)
  rw [currentTimestamp, hmod, UInt32.toNat_ofNat_of_lt' (by change _ < 2 ^ 32; omega)]
  omega

/-- The counted time is the clock, or the second after a clock that equals the recorded number. -/
theorem replayTime_cases (h : InRange inv.unixTimestamp) (core : PsyBridgeProgramState) :
    ((replayTime inv core).toNat : ℤ) = inv.unixTimestamp ∨
      ((replayTime inv core).toNat : ℤ) = inv.unixTimestamp + 1 ∧
        (core.lastProcessedWithdrawalsAtMs.toNat : ℤ) = inv.unixTimestamp := by
  have hnow := currentTimestamp_eq h
  rw [replayTime]
  split
  · next hsame =>
    right
    have hone : (1 : UInt32).toNat = 1 := rfl
    have hrange := h.2
    rw [hsame, UInt32.toNat_toUInt64, UInt32.toNat_add, hone, Nat.mod_eq_of_lt (by omega)]
    omega
  · exact .inl hnow

theorem Accepted.waited (hp : inv.programId = DOGE_BRIDGE_PROGRAM_ID)
    (hs : Holds env l st) (h : Accepted env inv l .replayWithdrawal l' effects) :
    st.coreState.lastProcessedWithdrawalsAtMs.toNat / 1000 + 60 ≤
      (replayTime inv st.coreState).toNat := by
  cases h with
  | replayWithdrawal accounts pda _ read _ _ _ _ _ run =>
    rw [hp] at pda
    rw [pda] at read
    have hread := read.symm.trans (congrArg Account.data hs)
    obtain rfl := BridgeState.pod.encode_injective hread
    obtain ⟨-, hwait, -⟩ := PsyBridgeProgramState.processReplayWithdrawalProof_ok.mp run
    have hthousand : (1000 : UInt64).toNat = 1000 := rfl
    have hsixty : MIN_WAIT_TIME_REPLAY_WITHDRAWAL_SECS.toUInt64.toNat = 60 := rfl
    have hms := UInt64.toNat_lt ‹BridgeState›.coreState.lastProcessedWithdrawalsAtMs
    rw [gt_iff_lt, UInt64.not_lt, UInt64.le_iff_toNat_le, UInt64.toNat_add, UInt64.toNat_div,
      hthousand, hsixty, UInt32.toNat_toUInt64, Nat.mod_eq_of_lt (by omega)] at hwait
    exact hwait

structure Records (st : BridgeState) (t : ℕ) : Prop where
  recorded : st.coreState.lastProcessedWithdrawalsAtMs.toNat = t * 1000
  late : 60 ≤ t

/-- The clock of a replay is a minute after the recorded time. If the replay counts a second more,
the clock is a thousand times that time. -/
theorem Records.spaced {t : ℕ} (hr : Records st t)
    (hp : inv.programId = DOGE_BRIDGE_PROGRAM_ID) (hrange : InRange inv.unixTimestamp)
    (hs : Holds env l st) (h : Accepted env inv l .replayWithdrawal l' effects) :
    (t : ℤ) + 60 ≤ inv.unixTimestamp := by
  have hwait := Accepted.waited hp hs h
  have hrecorded := hr.recorded
  have hlate := hr.late
  rcases replayTime_cases hrange st.coreState with heq | ⟨-, hsame⟩
  · omega
  · omega

theorem Accepted.records (hg : Guarded env.platform)
    (hp : inv.programId = DOGE_BRIDGE_PROGRAM_ID) (hrange : InRange inv.unixTimestamp)
    (hs : Holds env l st) (hs' : Holds env l' st')
    (h : Accepted env inv l .replayWithdrawal l' effects) :
    ∃ t : ℕ, Records st' t ∧ inv.unixTimestamp ≤ t := by
  have hwait := Accepted.waited hp hs h
  have hthousand : (1000 : UInt64).toNat = 1000 := rfl
  have hlt := (replayTime inv st.coreState).toNat_lt
  refine ⟨(replayTime inv st.coreState).toNat, ⟨?_, by omega⟩, ?_⟩
  · rw [Accepted.replay_recorded hg hp hs hs' h, UInt64.toNat_mul, UInt32.toNat_toUInt64, hthousand]
    omega
  · rcases replayTime_cases hrange st.coreState with heq | ⟨heq, -⟩
    · omega
    · omega

/-- The times so far are a minute apart, and the state records a time that none of them passes. -/
structure Spaced (st : BridgeState) (times : List ℤ) : Prop where
  apart : times.Pairwise fun t u => t + 60 ≤ u
  last : times ≠ [] → ∃ t : ℕ, Records st t ∧ ∀ u ∈ times, u ≤ t

theorem CallStep.spaced (hg : Guarded env.platform) (h : CallStep env st call st')
    (hinit : notInit call) (hrange : ∀ t, replayClock call = some t → InRange t)
    (hst : Spaced st (cs.filterMap replayClock)) :
    Spaced st' ((cs ++ [call]).filterMap replayClock) := by
  rw [List.filterMap_append]
  by_cases hix : call.ix = .replayWithdrawal
  · have hclock : replayClock call = some call.inv.unixTimestamp := replayClock_some.mpr ⟨hix, rfl⟩
    have ha := h.accepted
    rw [hix] at ha
    have hnow := hrange _ hclock
    rw [List.filterMap_cons_some hclock, List.filterMap_nil]
    obtain ⟨t', hrecords', hle'⟩ := Accepted.records hg h.program hnow h.before h.after ha
    have hearlier : ∀ u ∈ cs.filterMap replayClock, u + 60 ≤ call.inv.unixTimestamp := by
      intro u hu
      obtain ⟨t, hrecords, hle⟩ := hst.last (List.ne_nil_of_mem hu)
      have hspaced := hrecords.spaced h.program hnow h.before ha
      have hu := hle u hu
      omega
    refine ⟨?_, ?_⟩
    · refine List.pairwise_append.mpr ⟨hst.apart, List.pairwise_singleton _ _, ?_⟩
      intro u hu v hv
      rw [List.mem_singleton.mp hv]
      exact hearlier u hu
    · intro _
      refine ⟨t', hrecords', ?_⟩
      intro u hu
      rcases List.mem_append.mp hu with hu | hu
      · have hbefore := hearlier u hu
        omega
      · rw [List.mem_singleton.mp hu]
        exact hle'
  · have hnone : replayClock call = none := by
      rw [Option.eq_none_iff_forall_ne_some]
      intro t ht
      exact hix (replayClock_some.mp ht).1
    have hkept := Update.lastProcessed (StateStep.update h.step) hinit hix
    rw [List.filterMap_cons_none hnone, List.filterMap_nil, List.append_nil]
    refine ⟨hst.apart, ?_⟩
    intro hne
    obtain ⟨t, hrecords, hle⟩ := hst.last hne
    refine ⟨t, ⟨?_, hrecords.late⟩, hle⟩
    rw [hkept]
    exact hrecords.recorded

theorem run_spaced (hg : Guarded env.platform) (r : Run (CallStep env) st cs st')
    (hcalls : ∀ call ∈ cs, notInit call ∧ ∀ t, replayClock call = some t → InRange t) :
    Spaced st' (cs.filterMap replayClock) := by
  refine (r.restrict hcalls).history
    (P := fun _ cs st => Spaced st (cs.filterMap replayClock)) ?_ ?_
  · exact ⟨List.Pairwise.nil, fun h => absurd rfl h⟩
  · intro _ _ _ _ _ ih hstep
    exact CallStep.spaced hg hstep.1 hstep.2.1 hstep.2.2 ih

/-- In a run that does not start the bridge over, any two accepted replays are a minute apart, as
long as the clock stays in range at them. The order of the clock is not used. -/
theorem replays_spaced (hg : Guarded env.platform) (hs : Holds env l st)
    (r : Run (Step env) l es l') (once : ∀ e ∈ es, ¬ isInitialize e)
    (range : ∀ t ∈ replayTimes es, 0 ≤ t ∧ t ≤ 2 ^ 32 - 2) :
    (replayTimes es).Pairwise fun t u => t + 60 ≤ u := by
  obtain ⟨st', -, hrun⟩ := state_run hg r hs
  have htimes := replayTimes_calls r
  rw [htimes] at range ⊢
  refine (run_spaced hg hrun ?_).apart
  intro call hcall
  refine ⟨calls_notInit once call hcall, ?_⟩
  intro t ht
  exact range t (List.mem_filterMap.mpr ⟨call, hcall, ht⟩)

section Sample

open SignedCalls

def hashTx : Bytes := (crypto.sha256 sampleTx).toList

def replayData : Bytes :=
  List.replicate 32 0 ++ FixedMerkleAppendTreePartialMerkleProof.pod.encode
    (truePath crypto [crypto.sha256 hashTx] 0) ++ sampleTx

def spacedLedger : Ledger :=
  Function.update
    (Function.update emptyLedger txBuffer
      ⟨GENERIC_BUFFER_BUILDER_PROGRAM_ID, List.replicate 32 0 ++ hashTx⟩)
    replayBuffer ⟨GENERIC_BUFFER_BUILDER_PROGRAM_ID, replayData⟩

def replayAt (now : ℤ) : Invocation := { replayInvocation cluster with unixTimestamp := now }

def replayed (st : BridgeState) (t : UInt32) : BridgeState :=
  withCore st { st.coreState with lastProcessedWithdrawalsAtMs := t.toUInt64 * 1000 }

theorem replay_step {now : ℤ} {t : UInt32} (hs : Holds cluster l st)
    (hbuffer : l replayBuffer = ⟨GENERIC_BUFFER_BUILDER_PROGRAM_ID, replayData⟩)
    (hroot : (truePath crypto [crypto.sha256 hashTx] 0).computeRootSha256 crypto =
      some st.coreState.sentTransactionsTree.getRoot)
    (hst : st.coreState.lastProcessedWithdrawalsAtMs = t.toUInt64 * 1000)
    (hwait : t.toNat + 60 ≤ (currentTimestamp (replayAt now)).toNat)
    (htime : st.coreState.lastProcessedWithdrawalsAtMs ≠
      (currentTimestamp (replayAt now)).toUInt64) :
    ∃ effects, Step cluster l (.bridge ⟨replayAt now, .replayWithdrawal, effects, l,
      install cluster l (replayed st (currentTimestamp (replayAt now)))⟩)
      (install cluster l (replayed st (currentTimestamp (replayAt now)))) := by
  have hcounted : replayTime (replayAt now) st.coreState = currentTimestamp (replayAt now) :=
    if_neg htime
  have hpda : BridgeEnv.pda cluster ≠ replayBuffer := (ne_pda (by decide)).symm
  obtain ⟨hproof, htx, hlength⟩ := replay_read List.length_replicate (congrArg Account.data hbuffer)
  have hvalue : (replayProof l replayBuffer).value =
      btcHash256Bytes crypto (replayTx l replayBuffer) := by
    rw [hproof, htx]
    rfl
  have hrun := PsyBridgeProgramState.processReplayWithdrawalProof_ok.mpr
    ⟨hroot, wait_over hwait hst, rfl⟩
  rw [← hproof] at hrun
  rw [← hcounted]
  have howner : (l replayBuffer).owner = GENERIC_BUFFER_BUILDER_PROGRAM_ID :=
    congrArg Account.owner hbuffer
  have hlong : 32 + replayProofSize + 10 ≤ (l replayBuffer).data.length := by
    rw [hlength]
    exact le_rfl
  have hkey (k : Pubkey) : (⟨k, false, true⟩ : AccountInfo).key = k := rfl
  have hprogram : (replayAt now).programId = DOGE_BRIDGE_PROGRAM_ID := rfl
  obtain ⟨effects, hpost⟩ := replay_posted hprogram rfl ⟨rfl, rfl⟩ hpda _ _ _
    (install cluster l (replayed st (replayTime (replayAt now) st.coreState)))
  exact ⟨effects, step_of_accepted hprogram (replay_accepted_of hprogram
    (replayInvocation_listed cluster) (hkey _) (replayInvocation_writes cluster) howner hs hlong
    hvalue hrun hpost)⟩

/-- INITIALIZE, the withdrawal of `hashTx`, and two replays of `sampleTx`, at 100 and at 160. -/
theorem two_replays_spaced :
    ∃ init withdrawal es l₁ l₂ l₃, Step cluster spacedLedger init l₁ ∧
      Step cluster l₁ withdrawal l₂ ∧ Run (Step cluster) l₂ es l₃ ∧ replayTimes es = [100, 160] ∧
      (replayTimes es).Pairwise fun t u => t + 60 ≤ u := by
  have hbridge : BridgeEnv.pda cluster ≠ replayBuffer := (ne_pda (by decide)).symm
  have hunused : spacedLedger (BridgeEnv.pda cluster) = ⟨SYSTEM_PROGRAM_ID, []⟩ := by
    have h₁ : bridgeState ≠ replayBuffer := by decide
    have h₂ : bridgeState ≠ txBuffer := by decide
    rw [cluster_pda, spacedLedger, Function.update_of_ne h₁, Function.update_of_ne h₂]
    rfl
  have hne : txBuffer ≠ replayBuffer := by decide
  have hbuffer : spacedLedger txBuffer =
      ⟨GENERIC_BUFFER_BUILDER_PROGRAM_ID, List.replicate 32 0 ++ hashTx⟩ := by
    rw [spacedLedger, Function.update_of_ne hne, Function.update_self]
  obtain ⟨es, l₁, l₂, c, h₁, h₂, -, hl₂⟩ := cluster_withdrawal hunused hbuffer
    (show crypto.sha256 hashTx = (withdrawalData cluster hashTx).newReturnOutput.sighash from rfl)
  have hs : Holds cluster l₂ (withdrawn cluster (genesisState operatorKey 10)
      (withdrawalData cluster hashTx)) := by
    rw [hl₂]
    exact install_holds _ _ _
  have hreplay : l₂ replayBuffer = ⟨GENERIC_BUFFER_BUILDER_PROGRAM_ID, replayData⟩ := by
    rw [hl₂, install_of_ne hbridge.symm, spacedLedger, Function.update_self]
  have hsent : Represents crypto ([crypto.sha256 hashTx].foldl (FixedMerkleAppendTree.append crypto)
      .newEmpty) [crypto.sha256 hashTx] := appended_represents crypto_table (by decide)
  have htree := Represents.truePath_root hsent (p := 0) (by decide)
  have hstart : (0 : UInt64) ≠ (currentTimestamp (replayAt 100)).toUInt64 := by decide
  obtain ⟨es₃, h₃⟩ := replay_step (t := 0) hs hreplay htree rfl (by decide) hstart
  have hsecond : (currentTimestamp (replayAt 100)).toUInt64 * 1000 ≠
      (currentTimestamp (replayAt 160)).toUInt64 := by decide
  have hs₃ := install_holds cluster l₂ (replayed (withdrawn cluster (genesisState operatorKey 10)
    (withdrawalData cluster hashTx)) (currentTimestamp (replayAt 100)))
  obtain ⟨es₄, h₄⟩ := replay_step (t := currentTimestamp (replayAt 100)) hs₃
    ((install_of_ne hbridge.symm).trans hreplay) htree rfl (by decide) hsecond
  have hrun := (Run.single h₃).append (.single h₄)
  refine ⟨_, _, _, l₁, l₂, _, h₁, h₂, hrun, rfl, ?_⟩
  refine replays_spaced cluster_guarded hs hrun ?_ ?_
  · rintro e (_ | ⟨_, _ | ⟨_, ⟨⟩⟩⟩) h
    · exact h
    · exact h
  · change ∀ t ∈ ([100, 160] : List ℤ), _
    decide

end Sample

end ReplaySpacing
