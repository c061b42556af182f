import PsyDogeBridge.BridgeMonitor
import PsyDogeBridge.MessageCodec

/-! What the two monitors deliver in whole runs. -/
namespace MonitorDelivery

open PodLayout CheckedSteps BridgeData InstructionCodec LocalCluster PolledLog ClientRpc MonitorRuns

/-- Both monitors deliver exactly the events of the transactions since the start, as long as no
fetch of a listed transaction fails, no poll has more to list than fits into its batch and every
transaction is one from which the monitor reads what it should. -/
theorem monitors_deliver (cx : Codecs) :
    (∀ config : BridgeMonitor.MonitorConfig,
      Delivers cx (config.monitor cx) (BridgeMonitor.Ordinary config)
        (BridgeMonitor.events config)) ∧
    ∀ config : NoopShimMonitor.NoopShimMonitorConfig,
      Delivers cx (config.monitor cx) (NoopShimMonitor.Ordinary cx config)
        (NoopShimMonitor.events config) := by
  constructor
  · intro config
    apply delivers
    · intro t ht
      exact ht.reads
    · intro t ht
      exact ht.listed
  · intro config
    apply delivers
    · intro t ht
      exact ht.reads
    · intro t _
      exact NoopShimMonitor.events_listed

section Samples

variable {μ : Type} (m : Monitor μ) (t : ChainTransaction) (data : Bytes)

def before : State μ := ⟨[], none, []⟩

def arrived (t : ChainTransaction) : State μ := ⟨[t], none, []⟩

theorem arrives (cx : Codecs) : MonitorStep cx m before (.arrive t) (arrived t) :=
  .arrive (List.forall_mem_nil _)

/-- A poll lists the transaction but cannot fetch it: the next poll finds nothing new. -/
theorem lost_in_fetch (send : μ → Bool) (ht : m.address ∈ t.keys) (hbatch : 0 < m.batchSize)
    (hdata : ∀ ixs ∈ t.inner, ∀ ix ∈ ixs, ix.data = data)
    (hparse : m.parse (node t false) t.signature = .error (.rpc "timeout")) :
    let seen : State μ := ⟨[t], some t.signature, []⟩
    Run (MonitorStep (codecs t data) m) before [.arrive t, .poll (node t false) send] seen ∧
      MonitorStep (codecs t data) m seen (.poll (node t true) send) seen ∧
      answer m seen (node t true) = .ok [] := by
  intro seen
  have hfirst : (arrived t).poll (codecs t data) m (node t false) send = seen := by
    have hcodec : (codecs t data).parseSignature "" = .ok t.signature := rfl
    simp [State.poll, Monitor.pollOnce, node, arrived, hbatch, deliver, hcodec] at hparse ⊢
    rw [hparse]
  have hsecond : seen.poll (codecs t data) m (node t true) send = seen := rfl
  refine ⟨?_, ?_, rfl⟩
  · have hpoll : MonitorStep (codecs t data) m (arrived t) (.poll (node t false) send) _ :=
      .poll (node_lists ht) (node_reports hdata)
    rw [hfirst] at hpoll
    exact (Run.single (arrives m t _)).snoc hpoll
  · have hpoll : MonitorStep (codecs t data) m seen (.poll (node t true) send) _ :=
      .poll (node_lists ht) (node_reports hdata)
    rwa [hsecond] at hpoll

def burnData : Bytes := 8 :: Pod.u64.encode 50

def requestTransaction : ChainTransaction where
  signature := Vector.replicate 64 1
  slot := 7
  blockTime := some 100
  transaction := ⟨[Vector.replicate 64 1], 1, [operatorKey, bridgeState, mintKey, recipientKey,
    DOGE_BRIDGE_PROGRAM_ID, TOKEN_PROGRAM_ID], [⟨4, [1, 2, 3, 0, 5],
      instructionData (.requestWithdrawal ⟨50, 0, Vector.replicate 20 9⟩)⟩], []⟩
  loadedKeys := []
  err := none
  inner := [[⟨5, [3, 2, 0], burnData⟩]]
  ran _ := rfl

def bridgeConfig : BridgeMonitor.MonitorConfig := .new DOGE_BRIDGE_PROGRAM_ID bridgeState

def requestEvent : BridgeMonitor.BridgeEvent :=
  .withdrawalRequested ⟨Vector.replicate 64 1, 7, some 100, 50, Vector.replicate 20 9, 0,
    bridgeState, 0⟩

def requestCodecs : Codecs := codecs requestTransaction burnData

def requestMonitor : Monitor BridgeMonitor.BridgeEvent := bridgeConfig.monitor requestCodecs

theorem request_events : BridgeMonitor.events bridgeConfig requestTransaction = [requestEvent] := by
  decide

def sampleData : Bytes := MessageCodec.messageData 0 1 (List.replicate 32 6) [5]

def withdrawalTransaction : ChainTransaction where
  signature := Vector.replicate 64 2
  slot := 8
  blockTime := none
  transaction := ⟨[Vector.replicate 64 2], 1, [operatorKey, bridgeState, mintKey,
    DOGE_BRIDGE_PROGRAM_ID, NOOP_SHIM_PROGRAM_ID],
    [⟨3, [1, 2, 4, 0, 0, 0, 0, 0, 0, 0, 0, 0], instructionData .replayWithdrawal⟩], []⟩
  loadedKeys := []
  err := none
  inner := [[⟨4, [0, 0, 1, 0, 0, 0, 0, 0, 0, 0], sampleData⟩]]
  ran _ := rfl

def shimConfig : NoopShimMonitor.NoopShimMonitorConfig := .new bridgeState

def withdrawalMessage : NoopShimMonitor.NoopShimWithdrawalMessage where
  signature := Vector.replicate 64 2
  slot := 8
  blockTime := none
  nonce := 0
  consistencyLevel := 1
  sighash := Vector.replicate 32 6
  dogeTxBytes := [5]
  emitter := bridgeState
  payer := operatorKey

def withdrawalCodecs : Codecs := codecs withdrawalTransaction sampleData

def withdrawalMonitor : Monitor NoopShimMonitor.NoopShimWithdrawalMessage :=
  shimConfig.monitor withdrawalCodecs

theorem withdrawal_events :
    NoopShimMonitor.events shimConfig withdrawalTransaction = [withdrawalMessage] := by
  decide

theorem request_listed : requestMonitor.address ∈ requestTransaction.keys := by decide

theorem withdrawal_listed : withdrawalMonitor.address ∈ withdrawalTransaction.keys := by
  decide

/-- One fetch fails, and the poll after it finds nothing new although the event of the
transaction was never delivered. -/
theorem event_lost_in_fetch :
    (∃ labels s rpc send, Run (MonitorStep requestCodecs requestMonitor) before labels s ∧
      MonitorStep requestCodecs requestMonitor s (.poll rpc send) s ∧
      answer requestMonitor s rpc = .ok [] ∧ s.reader.delivered = [] ∧
      (since ChainTransaction.signature s.chain none).flatMap (BridgeMonitor.events bridgeConfig) =
        [requestEvent]) ∧
    ∃ labels s rpc send, Run (MonitorStep withdrawalCodecs withdrawalMonitor) before labels s ∧
      MonitorStep withdrawalCodecs withdrawalMonitor s (.poll rpc send) s ∧
      answer withdrawalMonitor s rpc = .ok [] ∧ s.reader.delivered = [] ∧
      (since ChainTransaction.signature s.chain none).flatMap (NoopShimMonitor.events shimConfig) =
        [withdrawalMessage] := by
  constructor
  · obtain ⟨run, quiet, answered⟩ := lost_in_fetch requestMonitor requestTransaction burnData
      (fun _ => true) request_listed (by decide) (by decide) rfl
    refine ⟨_, _, _, _, run, quiet, answered, rfl, ?_⟩
    exact (List.append_nil _).trans request_events
  · obtain ⟨run, quiet, answered⟩ := lost_in_fetch withdrawalMonitor withdrawalTransaction
      sampleData (fun _ => true) withdrawal_listed (by decide) (by decide) rfl
    refine ⟨_, _, _, _, run, quiet, answered, rfl, ?_⟩
    exact (List.append_nil _).trans withdrawal_events

theorem request_ordinary : BridgeMonitor.Ordinary bridgeConfig requestTransaction where
  failed h := absurd rfl h
  decoded _ ix hix _ := by
    cases List.mem_singleton.mp hix
    exact ⟨⟨_, unpack_instructionData (.requestWithdrawal _)⟩, rfl⟩
  static _ := by decide
  single _ := by decide
  top _ := by decide
  listed h := absurd request_listed h

theorem withdrawal_ordinary :
    NoopShimMonitor.Ordinary withdrawalCodecs shimConfig withdrawalTransaction where
  signed i hi := by
    have h0 : i = 0 := Nat.lt_one_iff.mp hi
    subst h0
    exact ⟨_, _, rfl, rfl, by decide⟩
  failed h := absurd rfl h
  static _ := by decide
  single _ := by decide
  below _ := by decide

theorem one_poll {ordinary : ChainTransaction → Prop} {events : ChainTransaction → List μ}
    (ht : m.address ∈ t.keys) (hbatch : 0 < m.batchSize)
    (hdata : ∀ ixs ∈ t.inner, ∀ ix ∈ ixs, ix.data = data) (hordinary : ordinary t)
    (h : Delivers (codecs t data) m ordinary events) :
    ((arrived t).poll (codecs t data) m (node t true) fun _ => true).reader.delivered =
      events t := by
  have hunseen : unseen m (arrived t) = [t] := by simp [unseen, arrived, listed, ht, since]
  have hcomplete : Complete m (arrived t) (node t true) fun _ => true := by
    refine ⟨?_, ?_, fun _ => rfl⟩
    · rw [hunseen]
      exact hbatch
    · rw [hunseen]
      intro u hu
      cases List.mem_singleton.mp hu
      exact ⟨report t, by simp [node]⟩
  have hstart : Startable m ordinary [] none := by
    refine ⟨List.nodup_nil, ?_, List.forall_mem_nil _⟩
    intro k hk
    cases hk
  rw [h [] none [.arrive t] (arrived t) _ (node t true) (fun _ => true) _ hstart
    (Run.single ⟨arrives m t _, hordinary⟩) (.poll (node_lists ht) (node_reports hdata))
    (fun _ => hcomplete) rfl]
  exact List.append_nil _

/-- Each monitor delivers the event of one transaction. -/
theorem sample_events_delivered :
    ((arrived requestTransaction).poll requestCodecs requestMonitor
      (node requestTransaction true) fun _ => true).reader.delivered = [requestEvent] ∧
    ((arrived withdrawalTransaction).poll withdrawalCodecs withdrawalMonitor
      (node withdrawalTransaction true) fun _ => true).reader.delivered = [withdrawalMessage] := by
  constructor
  · rw [← request_events]
    exact one_poll requestMonitor requestTransaction burnData request_listed (by decide)
      (by decide) request_ordinary ((monitors_deliver requestCodecs).1 bridgeConfig)
  · rw [← withdrawal_events]
    exact one_poll withdrawalMonitor withdrawalTransaction sampleData withdrawal_listed
      (by decide) (by decide) withdrawal_ordinary
      ((monitors_deliver withdrawalCodecs).2 shimConfig)

end Samples

end MonitorDelivery
