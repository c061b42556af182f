import PsyDogeBridge.OperatorScans

/-! The stream of history records and its checkpoints: what is delivered over two runs, the second
of which starts at the last checkpoint that the first one published. -/
namespace HistoryStream

open CheckedSteps ClientRpc PolledLog PagedScan HistorySync
open ClaimHistory (SignatureInfo signatureInfo signatureName)
open FetchedBlocks (HistoryRpc SyncConfig)
open OperatorScans (reconstructBuffersFromOperatorTxs)
open ChainTransaction (signature)

section Client

structure SyncCheckpoint where
  lastSignature : Signature
  lastSlot : UInt64
  recordsProcessed : UInt64
  lastBlockHeight : Option UInt32

def noSignature : Signature := Vector.replicate 64 0

def SyncCheckpoint.new : SyncCheckpoint := ⟨noSignature, 0, 0, none⟩

def SyncCheckpoint.afterSignature (self : SyncCheckpoint) : Option Signature :=
  if self.lastSignature = noSignature then none else some self.lastSignature

/-- The checkpoint after a record. Its slot is never set. -/
def SyncCheckpoint.record (self : SyncCheckpoint) (sig : Signature) (record : HistoryRecord) :
    SyncCheckpoint where
  lastSignature := sig
  lastSlot := self.lastSlot
  recordsProcessed := self.recordsProcessed + 1
  lastBlockHeight :=
    match record with
    | .block block => some block.blockHeight
    | _ => self.lastBlockHeight

/-- The other ends of the channels when the loop is at a signature: the stop signal is there, the
receiver of the records is still there, and the channel of checkpoints has room for one. -/
structure ChannelEnds where
  stopped : Signature → Bool
  accepts : Signature → Bool
  room : Signature → Bool

structure Stream where
  delivered : List HistoryRecord
  published : List SyncCheckpoint
  checkpoint : SyncCheckpoint

def Stream.send (self : Stream) (record : HistoryRecord) (room : Bool) : Stream :=
  { self with
    delivered := self.delivered ++ [record]
    published := if room then self.published ++ [self.checkpoint] else self.published }

/-- What a run of the stream has to do with: a node, the orders of the hash maps, one for each
transaction, and the other ends of its channels. -/
structure Session where
  rpc : HistoryRpc
  order : Signature → List Write → List Write
  ends : ChannelEnds

variable (cx : Codecs) (config : SyncConfig) (session : Session)

def collectName (self : List Signature × Option Signature) (sigInfo : SignatureInfo) :
    Except ClientRpc.BridgeError (List Signature × Option Signature) :=
  match cx.parseSignature sigInfo.signature with
  | .ok sig => pure (self.1 ++ [sig], some sig)
  | .error _ => pure self

def collectAllSignatures (afterSignature : Option Signature) (requests : ℕ) :
    Option (Except ClientRpc.BridgeError (List Signature)) :=
  (drain (fun self => session.rpc.getSignaturesForAddress config.bridgeStatePda
    ⟨self.2, afterSignature, config.signatureBatchSize⟩) (collectName cx) requests ([], none)).map
    fun result => result.map Prod.fst

def rebuildIn (signature : Signature) (slot : UInt64) (blockTime : Option ℤ) (reading : Reading) :
    Except Fault HistoryRecord :=
  rebuild signature slot blockTime (fun operator mintBuffer txoBuffer slot =>
    reconstructBuffersFromOperatorTxs cx session.rpc config mintBuffer txoBuffer
      (session.order signature) operator slot) reading

def processTransaction (signature : Signature) : Except Fault (Option HistoryRecord) := do
  let tx ← (session.rpc.getTransaction signature).mapError .failed
  match ← (decodeTransaction cx tx.transaction).mapError .failed with
  | none => pure none
  | some transaction =>
    match (transaction.message.instructions.findSome? (processInstruction signature tx.slot
        tx.blockTime transaction.message.staticAccountKeys config.toHistorySyncConfig)).join with
    | none => pure none
    | some reading => some <$> rebuildIn cx config session signature tx.slot tx.blockTime reading

/-- The loop over the signatures, oldest first. A record whose receiver is gone ends it; an error
is only logged, and the loop goes on with the next signature; a panic ends the task. -/
def streamSignatures : List Signature → Stream → Stream
  | [], self => self
  | sig :: rest, self =>
    if session.ends.stopped sig then self
    else
      match processTransaction cx config session sig with
      | .ok (some record) =>
        let self := { self with checkpoint := self.checkpoint.record sig record }
        if session.ends.accepts sig then
          streamSignatures rest (self.send record (session.ends.room sig))
        else self
      | .ok none =>
        streamSignatures rest
          { self with checkpoint := { self.checkpoint with lastSignature := sig } }
      | .error (.failed _) => streamSignatures rest self
      | .error .panicked => self

def streamLoop (checkpoint : SyncCheckpoint) (requests : ℕ) : Option Stream :=
  (collectAllSignatures cx config session checkpoint.afterSignature requests).map fun
    | .ok signatures =>
      streamSignatures cx config session signatures.reverse ⟨[], [], checkpoint⟩
    | .error _ => ⟨[], [], checkpoint⟩

def streamHistory (checkpoint : Option SyncCheckpoint) (requests : ℕ) : Option Stream :=
  streamLoop cx config session (checkpoint.getD .new) requests

def Stream.resumeFrom (self : Stream) (start : Option SyncCheckpoint) : Option SyncCheckpoint :=
  self.published.getLast?.or start

end Client

section Chain

variable (cx : Codecs) (config : SyncConfig) (session first second : Session)
  (history new ts : List ChainTransaction) (start : Option SyncCheckpoint) (t : ChainTransaction)

/-- The node lists what is newer than one signature and older than another, newest first, on pages
of any sizes. It may fail to fetch a transaction; what it fetches is what is on the chain. -/
structure Lists (pageSize : ℕ → ℕ) (rpc : HistoryRpc) : Prop where
  lists : ∀ after before passed,
    since signature (newer signature history after) before =
      (newer signature history after).drop passed →
    rpc.getSignaturesForAddress config.bridgeStatePda
        ⟨before, after, config.signatureBatchSize⟩ =
      .ok ((pageAt (newer signature history after) pageSize passed).map (signatureInfo cx))
  goesOn : ∀ passed, 1 ≤ pageSize passed
  named : ∀ t ∈ history, cx.parseSignature (signatureName cx t) = .ok t.signature
  reports : ∀ t ∈ history, ∀ r, rpc.getTransaction t.signature = .ok r → Reports cx t r

def due : List ChainTransaction := newer signature history (start.getD .new).afterSignature

def readIn : Option Reading :=
  (t.transaction.message.instructions.findSome? (processInstruction t.signature t.slot t.blockTime
    t.transaction.message.staticAccountKeys config.toHistorySyncConfig)).join

/-- A transaction with a record. -/
def matching : Bool := (readIn config t).isSome

def recordIn : Option HistoryRecord :=
  (readIn config t).bind fun reading =>
    (rebuildIn cx config session t.signature t.slot t.blockTime reading).toOption

def fetched : Bool := (session.rpc.getTransaction t.signature).isOk

def taken : Option HistoryRecord :=
  if fetched session t then recordIn cx config session t else none

/-- The reconstruction of the buffers panics, and with it the task of the stream. -/
def panics : Bool :=
  fetched session t && matching config t && (recordIn cx config session t).isNone

/-- What the loop sees of a transaction. -/
inductive Outcome : Except Fault (Option HistoryRecord) → Prop where
  | read (alive : panics cx config session t = false) : Outcome (.ok (taken cx config session t))
  | failed (e : ClientRpc.BridgeError) (alive : panics cx config session t = false)
      (nothing : taken cx config session t = none) : Outcome (.error (.failed e))
  | panicked (dead : panics cx config session t = true) : Outcome (.error .panicked)

def goesOn : Bool :=
  !session.ends.stopped t.signature && !panics cx config session t &&
    ((taken cx config session t).isNone || session.ends.accepts t.signature)

def passed : List ChainTransaction := ts.takeWhile (goesOn cx config session)

def publishes : Bool := (taken cx config session t).isSome && session.ends.room t.signature

/-- What the loop leaves after it went through `ts`: it has delivered their records, and the
checkpoints that it published are at transactions whose records it delivered. -/
structure Streamed (s s' : Stream) : Prop where
  delivered : s'.delivered = s.delivered ++ ts.filterMap (taken cx config session)
  published : s'.published.map SyncCheckpoint.lastSignature =
    s.published.map SyncCheckpoint.lastSignature ++
      (ts.filter (publishes cx config session)).map signature

def Delivered (s : Stream) (t : ChainTransaction) : Prop :=
  ∃ r, recordIn cx config session t = some r ∧ r ∈ s.delivered

def Sent : Prop :=
  t ∈ passed cx config session (due history start).reverse ∧
    (taken cx config session t).isSome = true

def Published : Prop :=
  Sent cx config session history start t ∧ session.ends.room t.signature = true

/-- What the second run looks at: what is newer than every transaction whose checkpoint was
published. -/
def Resumed : Prop :=
  t ∈ new ++ due history start ∧
    ∀ u, Published cx config first history start u → [t, u].Sublist (new ++ history)

/-- The second run sends a record: it fetches the transaction, which is newer than every one whose
checkpoint the first run published, and it has not died on its way to it. -/
structure Resent : Prop where
  refetched : fetched second t = true
  ahead : ∀ u, Published cx config first history start u → [t, u].Sublist (new ++ history)
  alive : ∀ u, Resumed cx config first history new start u →
    (u = t ∨ [t, u].Sublist (new ++ history)) → panics cx config second u = false

/-- What was matching and was not sent is sent by the second run. -/
def Resumable : Prop :=
  ∀ t ∈ new ++ due history start, matching config t = true →
    ¬ Sent cx config first history start t → Resent cx config first second history new start t

end Chain

variable {cx : Codecs} {config : SyncConfig} {session first second : Session}
  {history new ts : List ChainTransaction} {start : Option SyncCheckpoint} {t : ChainTransaction}
  {pageSize : ℕ → ℕ}

section Records

variable {reading : Reading} {r : HistoryRecord}

def recordSignature : HistoryRecord → Signature
  | .block r => r.signature
  | .withdrawalRequest r => r.signature
  | .processedWithdrawal r => r.signature
  | .manualDeposit r => r.signature

theorem rebuildIn_signature {ix : CompiledInstruction}
    (h : processInstruction t.signature t.slot t.blockTime
      t.transaction.message.staticAccountKeys config.toHistorySyncConfig ix = some (some reading))
    (hr : rebuildIn cx config session t.signature t.slot t.blockTime reading = .ok r) :
    recordSignature r = t.signature := by
  unfold processInstruction at h
  split at h
  · cases h
  split at h
  · cases h
  unfold readAt at h
  split at h
  case h_1 | h_2 =>
    obtain ⟨info, -, rfl⟩ := Option.map_eq_some_iff.mp (Option.some.inj h)
    obtain ⟨_, -, rfl⟩ := map_ok.mp hr
    rfl
  case h_3 | h_4 | h_5 =>
    split at h
    · obtain ⟨_, hread, rfl⟩ := Option.map_eq_some_iff.mp (Option.some.inj h)
      obtain ⟨_, -, rfl⟩ := Option.map_eq_some_iff.mp hread
      cases hr
      rfl
    · cases h
  case h_6 => cases h

theorem recordIn_signature (h : recordIn cx config session t = some r) :
    recordSignature r = t.signature := by
  obtain ⟨reading, hreading, hr⟩ := Option.bind_eq_some_iff.mp h
  obtain ⟨ix, -, hix⟩ := List.exists_of_findSome?_eq_some (Option.join_eq_some_iff.mp hreading)
  exact rebuildIn_signature hix (BufferLocks.toOption_eq_some.mp hr)

/-- An error of the reconstruction is not one of the record. -/
theorem rebuildIn_fault {fault : Fault}
    (h : rebuildIn cx config session t.signature t.slot t.blockTime reading = .error fault) :
    fault = .panicked := by
  cases reading with
  | record r => cases h
  | update info =>
    dsimp only [rebuildIn, rebuild] at h
    split at h
    · generalize reconstructBuffersFromOperatorTxs _ _ _ _ _ _ _ _ = result at h
      rcases result with (e | _) | found
      · cases h
      · cases h
        rfl
      · cases h
    · cases h

end Records

section Nodes

variable {after : Option Signature}

def collected (self : List Signature × Option Signature) (t : ChainTransaction) :
    List Signature × Option Signature :=
  (self.1 ++ [t.signature], some t.signature)

theorem foldl_collected :
    ts.foldl collected ([], none) = (ts.map signature, ts.getLast?.map signature) := by
  induction ts using List.reverseRecOn with
  | nil => rfl
  | append_singleton ts t ih =>
    rw [List.foldl_append, ih, List.map_append, List.getLast?_concat]
    rfl

theorem collectAllSignatures_eq (hlists : Lists cx config history pageSize session.rpc)
    (distinct : (history.map signature).Nodup) {requests : ℕ}
    (hrequests : history.length < requests) :
    collectAllSignatures cx config session after requests =
      some (.ok ((newer signature history after).map signature)) := by
  have hsub : (newer signature history after).Sublist history := prefix_newer.sublist
  have hread (p : ℕ) : session.rpc.getSignaturesForAddress config.bridgeStatePda
      ⟨(((newer signature history after).take p).foldl collected ([], none)).2, after,
        config.signatureBatchSize⟩ =
      .ok ((pageAt (newer signature history after) pageSize p).map (signatureInfo cx)) := by
    rw [foldl_collected]
    exact hlists.lists after _ p (since_take (distinct.sublist (hsub.map _)) p)
  have hvisit : ∀ self, ∀ t ∈ newer signature history after,
      collectName cx self (signatureInfo cx t) = .ok (collected self t) := by
    intro self t ht
    have hname : cx.parseSignature (signatureInfo cx t).signature = .ok t.signature :=
      hlists.named t (hsub.subset ht)
    rw [collectName, hname]
    rfl
  rw [collectAllSignatures, drain_all hlists.goesOn hread hvisit
    (hsub.length_le.trans_lt hrequests), foldl_collected]
  rfl

theorem processTransaction_fetched {r : EncodedConfirmedTransaction}
    (hfetch : session.rpc.getTransaction t.signature = .ok r) (hreports : Reports cx t r) :
    processTransaction cx config session t.signature =
      match readIn config t with
      | none => .ok none
      | some reading => (rebuildIn cx config session t.signature t.slot t.blockTime reading).map
        some := by
  simp only [processTransaction, hfetch, Except.mapError, bind, Except.bind,
    hreports.transaction, hreports.slot, hreports.blockTime]
  rfl

theorem processTransaction_outcome (hlists : Lists cx config history pageSize session.rpc)
    (ht : t ∈ history) :
    Outcome cx config session t (processTransaction cx config session t.signature) := by
  cases hfetch : session.rpc.getTransaction t.signature with
  | error e =>
    have hlost : fetched session t = false := by rw [fetched, hfetch]; rfl
    have hfailed : processTransaction cx config session t.signature = .error (.failed e) := by
      simp only [processTransaction, hfetch, Except.mapError, bind, Except.bind]
    rw [hfailed]
    exact .failed e (by simp [panics, hlost]) (by simp [taken, hlost])
  | ok r =>
    have hgot : fetched session t = true := by rw [fetched, hfetch]; rfl
    rw [processTransaction_fetched hfetch (hlists.reports t ht r hfetch)]
    cases hread : readIn config t with
    | none =>
      have hnone : taken cx config session t = none := by simp [taken, recordIn, hread]
      have halive : panics cx config session t = false := by simp [panics, matching, hread]
      exact hnone ▸ .read halive
    | some reading =>
      cases hrecord : rebuildIn cx config session t.signature t.slot t.blockTime reading with
      | ok record =>
        have hsome : recordIn cx config session t = some record := by
          rw [recordIn, hread, Option.bind_some, hrecord]
          rfl
        have htaken : taken cx config session t = some record := by rw [taken, if_pos hgot, hsome]
        have halive : panics cx config session t = false := by simp [panics, hsome]
        change Outcome cx config session t (Except.map some _)
        rw [hrecord, Except.map, ← htaken]
        exact .read halive
      | error fault =>
        cases rebuildIn_fault hrecord
        change Outcome cx config session t (Except.map some _)
        rw [hrecord]
        refine .panicked ?_
        simp [panics, matching, recordIn, hgot, hread, hrecord, Except.toOption]

variable {s s' : Stream} {checkpoint : SyncCheckpoint} {record : HistoryRecord}

theorem Streamed.nil : Streamed cx config session [] s { s with checkpoint := checkpoint } :=
  ⟨(List.append_nil _).symm, (List.append_nil _).symm⟩

theorem Streamed.skip (hnone : taken cx config session t = none)
    (h : Streamed cx config session ts { s with checkpoint := checkpoint } s') :
    Streamed cx config session (t :: ts) s s' := by
  have hquiet : ¬ publishes cx config session t = true := by simp [publishes, hnone]
  constructor
  · rw [List.filterMap_cons_none hnone]
    exact h.delivered
  · rw [List.filter_cons_of_neg hquiet]
    exact h.published

theorem Streamed.send (hsome : taken cx config session t = some record)
    (hcheckpoint : checkpoint.lastSignature = t.signature)
    (h : Streamed cx config session ts (Stream.send { s with checkpoint := checkpoint } record
      (session.ends.room t.signature)) s') :
    Streamed cx config session (t :: ts) s s' := by
  constructor
  · rw [List.filterMap_cons_some hsome, h.delivered, Stream.send, List.append_assoc]
    rfl
  · rw [h.published, Stream.send]
    by_cases hroom : session.ends.room t.signature = true
    · have hpublishes : publishes cx config session t = true := by simp [publishes, hsome, hroom]
      rw [if_pos hroom, List.filter_cons_of_pos hpublishes, List.map_append, List.append_assoc,
        List.map_singleton, hcheckpoint]
      rfl
    · have hquiet : ¬ publishes cx config session t = true := by simp [publishes, hroom]
      rw [if_neg hroom, List.filter_cons_of_neg hquiet]

theorem streamSignatures_streamed (hlists : Lists cx config history pageSize session.rpc)
    (hts : ts ⊆ history) (s : Stream) :
    Streamed cx config session (passed cx config session ts) s
      (streamSignatures cx config session (ts.map signature) s) := by
  induction ts generalizing s with
  | nil => exact .nil
  | cons t ts ih =>
    have hrest := ih fun u hu => hts (List.mem_cons_of_mem _ hu)
    rw [List.map_cons, streamSignatures, passed, List.takeWhile_cons]
    by_cases hstopped : session.ends.stopped t.signature = true
    · have hends : ¬ goesOn cx config session t = true := by simp [goesOn, hstopped]
      rw [if_pos hstopped, if_neg hends]
      exact .nil
    rw [if_neg hstopped]
    have houtcome := processTransaction_outcome hlists (hts List.mem_cons_self)
    generalize processTransaction cx config session t.signature = outcome at houtcome ⊢
    cases houtcome with
    | read halive =>
      cases htaken : taken cx config session t with
      | some record =>
        by_cases haccepts : session.ends.accepts t.signature = true
        · have hon : goesOn cx config session t = true := by
            simp [goesOn, hstopped, halive, haccepts]
          simp only [if_pos hon, if_pos haccepts]
          exact (hrest _).send htaken rfl
        · have hends : ¬ goesOn cx config session t = true := by simp [goesOn, htaken, haccepts]
          simp only [if_neg hends, if_neg haccepts]
          exact .nil
      | none =>
        have hon : goesOn cx config session t = true := by simp [goesOn, hstopped, halive, htaken]
        rw [if_pos hon]
        exact (hrest _).skip htaken
    | failed e halive hnone =>
      have hon : goesOn cx config session t = true := by simp [goesOn, hstopped, halive, hnone]
      rw [if_pos hon]
      exact (hrest _).skip hnone
    | panicked hdead =>
      have hends : ¬ goesOn cx config session t = true := by simp [goesOn, hdead]
      rw [if_neg hends]
      exact .nil

end Nodes

section Resuming

def Ends (run : ℕ → Option Stream) (s : Stream) : Prop :=
  ∃ needed, ∀ requests, needed < requests → run requests = some s

variable {s : Stream} {checkpoint : SyncCheckpoint}

theorem stream_ends (hlists : Lists cx config history pageSize session.rpc)
    (distinct : (history.map signature).Nodup) (start : Option SyncCheckpoint) :
    ∃ s, Ends (streamHistory cx config session start) s ∧
      Streamed cx config session (passed cx config session (due history start).reverse)
        ⟨[], [], start.getD .new⟩ s := by
  have hsub : (due history start).Sublist history := prefix_newer.sublist
  refine ⟨_, ⟨history.length, fun requests h => ?_⟩, streamSignatures_streamed hlists
    (List.reverse_subset.mpr hsub.subset) _⟩
  rw [streamHistory, streamLoop, collectAllSignatures_eq hlists distinct h, List.map_reverse]
  rfl

theorem taken_some {r : HistoryRecord} : taken cx config session t = some r ↔
    fetched session t = true ∧
      recordIn cx config session t = some r :=
  Option.ite_none_right_eq_some

theorem Streamed.delivered_iff (h : Streamed cx config session ts ⟨[], [], checkpoint⟩ s)
    (distinct : (history.map signature).Nodup) (hts : ts ⊆ history) (ht : t ∈ history) :
    Delivered cx config session s t ↔ t ∈ ts ∧ (taken cx config session t).isSome = true := by
  have hdelivered : s.delivered = ts.filterMap (taken cx config session) := h.delivered
  rw [Delivered, hdelivered]
  constructor
  · rintro ⟨r, hr, hmem⟩
    obtain ⟨u, hu, htaken⟩ := List.mem_filterMap.mp hmem
    have hsame : u.signature = t.signature :=
      (recordIn_signature (taken_some.mp htaken).2).symm.trans (recordIn_signature hr)
    obtain rfl := List.inj_on_of_nodup_map distinct (hts hu) ht hsame
    rw [htaken]
    exact ⟨hu, rfl⟩
  · rintro ⟨hmem, hsome⟩
    obtain ⟨r, hr⟩ := Option.isSome_iff_exists.mp hsome
    exact ⟨r, (taken_some.mp hr).2, List.mem_filterMap.mpr ⟨t, hmem, hr⟩⟩

/-- The records come in the order of the chain. -/
theorem Streamed.ordered
    (h : Streamed cx config session (passed cx config session (due history start).reverse)
      ⟨[], [], checkpoint⟩ s) :
    s.delivered.Sublist
      (history.reverse.filterMap (recordIn cx config session)) := by
  have hdelivered : s.delivered = (passed cx config session (due history start).reverse).filterMap
      (taken cx config session) := h.delivered
  have hfilter : taken cx config session = fun t => if fetched session t = true then
      recordIn cx config session t else none := rfl
  rw [hdelivered, hfilter, ← List.filterMap_filter]
  apply List.Sublist.filterMap
  exact (List.filter_sublist.trans (List.takeWhile_sublist _)).trans prefix_newer.sublist.reverse

theorem mem_published : t ∈ (passed cx config session (due history start).reverse).filter
    (publishes cx config session) ↔ Published cx config session history start t := by
  rw [List.mem_filter, publishes, Bool.and_eq_true, ← and_assoc]
  rfl

/-- The second run starts behind the transaction of the last checkpoint that was published. -/
theorem due_resumed {last : ChainTransaction}
    (hlast : s.published.getLast?.map SyncCheckpoint.lastSignature = some last.signature)
    (nonzero : last.signature ≠ noSignature) :
    due history (s.resumeFrom start) = newer signature history (some last.signature) := by
  obtain ⟨c, hc, hsignature⟩ := Option.map_eq_some_iff.mp hlast
  rw [Stream.resumeFrom, hc, due]
  change newer signature history c.afterSignature = _
  rw [SyncCheckpoint.afterSignature, hsignature, if_neg nonzero]

theorem mem_resumed
    (h : Streamed cx config session (passed cx config session (due history start).reverse)
      ⟨[], [], start.getD .new⟩ s)
    (distinct : ((new ++ history).map signature).Nodup)
    (nonzero : ∀ t ∈ history, t.signature ≠ noSignature)
    (hstart : ∀ t ∈ new, (start.getD .new).afterSignature ≠ some t.signature) :
    t ∈ due (new ++ history) (s.resumeFrom start) ↔
      Resumed cx config session history new start t := by
  have hpublished : s.published.map SyncCheckpoint.lastSignature = _ := h.published
  have hall : newer signature (new ++ history) (start.getD .new).afterSignature =
      new ++ due history start := newer_append hstart
  rw [List.map_nil, List.nil_append] at hpublished
  rcases List.eq_nil_or_concat' ((passed cx config session (due history start).reverse).filter
      (publishes cx config session)) with hnone | ⟨older, newest, hsome⟩
  · rw [hnone, List.map_nil, List.map_eq_nil_iff] at hpublished
    rw [Stream.resumeFrom, hpublished]
    change t ∈ newer signature (new ++ history) (start.getD .new).afterSignature ↔ _
    rw [hall]
    refine ⟨fun ht => ⟨ht, fun u hu => ?_⟩, And.left⟩
    rw [← mem_published, hnone] at hu
    cases hu
  · have hsub : (older ++ [newest]).Sublist (due history start).reverse := by
      rw [← hsome]
      exact List.filter_sublist.trans (List.takeWhile_sublist _)
    have hnewest : newest ∈ due history start :=
      List.mem_reverse.mp (hsub.subset (List.mem_append_right _ List.mem_cons_self))
    have hold : newest ∈ history := prefix_newer.subset hnewest
    rw [hsome, List.map_append] at hpublished
    have hlast : s.published.getLast?.map SyncCheckpoint.lastSignature =
        some newest.signature := by
      rw [← List.getLast?_map, hpublished]
      exact List.getLast?_concat
    rw [due_resumed hlast (nonzero newest hold),
      mem_newer_iff distinct (List.mem_append_right _ hold)]
    constructor
    · intro hbefore
      refine ⟨?_, fun u hu => ?_⟩
      · rw [← hall]
        refine (sublist_newer distinct ?_ hbefore).subset List.mem_cons_self
        exact hall ▸ List.mem_append_right _ hnewest
      · rw [← mem_published, hsome, List.mem_append] at hu
        rcases hu with hu | hu
        · have hpair : [u, newest].Sublist (due history start).reverse :=
            ((List.singleton_sublist.mpr hu).append_right [newest]).trans hsub
          have hdue : [newest, u].Sublist (due history start) := by simpa using hpair.reverse
          have horder := (hdue.trans prefix_newer.sublist).trans (List.sublist_append_right new _)
          have hu := horder.subset (List.mem_cons_of_mem _ List.mem_cons_self)
          rw [← mem_newer_iff distinct hu] at horder ⊢
          exact (sublist_newer distinct horder hbefore).subset List.mem_cons_self
        · rwa [List.mem_singleton.mp hu]
    · intro h
      refine h.2 newest (mem_published.mp ?_)
      rw [hsome]
      exact List.mem_append_right _ List.mem_cons_self

def Session.Listening (session : Session) : Prop :=
  ∀ sig, session.ends.stopped sig = false ∧ session.ends.accepts sig = true

theorem Session.Listening.passed (h : session.Listening) (ts : List ChainTransaction) :
    HistoryStream.passed cx config session ts =
      ts.takeWhile fun t => !panics cx config session t := by
  rw [HistoryStream.passed]
  congr 1
  funext t
  obtain ⟨hstopped, haccepts⟩ := h t.signature
  rw [goesOn, hstopped, haccepts, Bool.or_true, Bool.and_true]
  rfl

theorem taken_isSome : (taken cx config session t).isSome = true ↔
    fetched session t = true ∧ matching config t = true ∧ panics cx config session t = false := by
  have hmatching : (recordIn cx config session t).isSome = true → matching config t = true := by
    intro h
    obtain ⟨r, hr⟩ := Option.isSome_iff_exists.mp h
    obtain ⟨reading, hreading, -⟩ := Option.bind_eq_some_iff.mp hr
    rw [matching, hreading]
    rfl
  rw [taken, panics]
  cases fetched session t with
  | false => simp
  | true =>
    cases hrecord : recordIn cx config session t with
    | none => simp
    | some r => simp [hmatching (hrecord ▸ rfl)]

theorem mem_passed_iff {all : List ChainTransaction} {checkpoint : Option SyncCheckpoint}
    (hlistening : session.Listening) (distinct : (all.map signature).Nodup)
    (ht : t ∈ due all checkpoint) :
    t ∈ passed cx config session (due all checkpoint).reverse ↔
      ∀ u ∈ due all checkpoint, (u = t ∨ [t, u].Sublist all) →
        panics cx config session u = false := by
  have hnodup : ((due all checkpoint).reverse.map signature).Nodup := by
    rw [List.map_reverse, List.nodup_reverse]
    exact distinct.sublist (prefix_newer.sublist.map _)
  rw [hlistening.passed, mem_takeWhile_iff hnodup (List.mem_reverse.mpr ht)]
  simp only [Bool.not_eq_true']
  constructor
  · rintro ⟨halive, hbefore⟩ u hu (rfl | hpair)
    · exact halive
    · exact hbefore u (sublist_newer distinct hu hpair).reverse
  · intro h
    refine ⟨h t ht (.inl rfl), fun u hpair => ?_⟩
    have hdue : [t, u].Sublist (due all checkpoint) := by simpa using hpair.reverse
    exact h u (hdue.subset (List.mem_cons_of_mem _ List.mem_cons_self))
      (.inr (hdue.trans prefix_newer.sublist))

/-- Two runs of the stream, the first stopped anywhere, the second from the last checkpoint that it
published: both end and deliver their records in the order of the chain. Every record is delivered
over the two runs only if they are resumable. -/
theorem resumed_stream_iff {laterSize : ℕ → ℕ} (hfirst : Lists cx config history pageSize first.rpc)
    (hsecond : Lists cx config (new ++ history) laterSize second.rpc)
    (distinct : ((new ++ history).map signature).Nodup)
    (nonzero : ∀ t ∈ history, t.signature ≠ noSignature)
    (hstart : ∀ t ∈ new, (start.getD .new).afterSignature ≠ some t.signature)
    (hlistening : second.Listening) :
    ∃ s₁ s₂, Ends (streamHistory cx config first start) s₁ ∧
      Ends (streamHistory cx config second (s₁.resumeFrom start)) s₂ ∧
      s₁.delivered.Sublist (history.reverse.filterMap (recordIn cx config first)) ∧
      s₂.delivered.Sublist ((new ++ history).reverse.filterMap (recordIn cx config second)) ∧
      ((∀ t ∈ new ++ due history start, matching config t = true →
          Delivered cx config first s₁ t ∨ Delivered cx config second s₂ t) ↔
        Resumable cx config first second history new start) := by
  have hold : (history.map signature).Nodup :=
    distinct.sublist ((List.sublist_append_right new history).map _)
  obtain ⟨s₁, hends₁, h₁⟩ := stream_ends hfirst hold start
  obtain ⟨s₂, hends₂, h₂⟩ := stream_ends hsecond distinct (s₁.resumeFrom start)
  refine ⟨s₁, s₂, hends₁, hends₂, h₁.ordered, h₂.ordered, ?_⟩
  have hdue {t : ChainTransaction} (ht : t ∈ new ++ due history start) : t ∈ new ++ history :=
    ((List.Sublist.refl new).append prefix_newer.sublist).subset ht
  have hsent {t : ChainTransaction} (ht : t ∈ new ++ due history start) :
      Delivered cx config first s₁ t ↔ Sent cx config first history start t := by
    refine h₁.delivered_iff distinct (fun u hu => ?_) (hdue ht)
    have hmem := (List.takeWhile_sublist _).subset hu
    exact List.mem_append_right _ (prefix_newer.subset (List.mem_reverse.mp hmem))
  have hresumed {t : ChainTransaction} := mem_resumed (t := t) h₁ distinct nonzero hstart
  have hresent {t : ChainTransaction} (ht : t ∈ new ++ due history start)
      (hmatching : matching config t = true) :
      Delivered cx config second s₂ t ↔
        Resent cx config first second history new start t := by
    rw [h₂.delivered_iff distinct (fun u hu => prefix_newer.subset (List.mem_reverse.mp
      ((List.takeWhile_sublist _).subset hu))) (hdue ht), taken_isSome]
    constructor
    · rintro ⟨hpassed, hfetched, -, -⟩
      have hmem := List.mem_reverse.mp ((List.takeWhile_sublist _).subset hpassed)
      refine ⟨hfetched, (hresumed.mp hmem).2, fun u hu => ?_⟩
      exact (mem_passed_iff hlistening distinct hmem).mp hpassed u (hresumed.mpr hu)
    · rintro ⟨hfetched, hahead, halive⟩
      have hmem := hresumed.mpr ⟨ht, hahead⟩
      refine ⟨(mem_passed_iff hlistening distinct hmem).mpr fun u hu => halive u (hresumed.mp hu),
        hfetched, hmatching, halive t ⟨ht, hahead⟩ (.inl rfl)⟩
  constructor
  · intro h t ht hmatching hnot
    exact (hresent ht hmatching).mp
      ((h t ht hmatching).resolve_left fun hd => hnot ((hsent ht).mp hd))
  · intro h t ht hmatching
    by_cases hs : Sent cx config first history start t
    · exact .inl ((hsent ht).mpr hs)
    · exact .inr ((hresent ht hmatching).mpr (h t ht hmatching hs))

end Resuming

section Sample

open BridgeData
open FetchedBlocks (sampleConfig)

def requestMessage : VersionedTransaction :=
  ⟨[], 1, [DOGE_BRIDGE_PROGRAM_ID], [DecoderAgreement.clientRequest], []⟩

theorem requestMessage_ran : (none : Option String) = none →
    [([] : List CompiledInstruction)].length = requestMessage.message.instructions.length :=
  fun _ => rfl

def requested (n : UInt8) : ChainTransaction where
  signature := Vector.replicate 64 n
  slot := 7
  blockTime := none
  transaction := requestMessage
  loadedKeys := []
  err := none
  inner := [[]]
  ran := requestMessage_ran

def sampleHistory : List ChainTransaction := [requested 2, requested 1]

def sampleCodecs : Codecs where
  parseSignature name := .ok (Vector.replicate 64 (if name = "first" then 1 else 2))
  base64 _ := .ok []
  base58 _ := .error "invalid"
  bincode _ := .ok (requested 1).transaction
  serialize _ := []
  verify _ _ _ := true
  showPubkey _ := ""
  showSignature sig := if sig = Vector.replicate 64 1 then "first" else "second"

def sampleSession (lost : UInt8) : Session where
  rpc :=
    { getSignaturesForAddress := fun _ query => .ok
        (((since signature (newer signature sampleHistory query.untilSignature)
          query.beforeSignature).take query.limit).map (signatureInfo sampleCodecs))
      getTransaction := fun sig =>
        if sig = Vector.replicate 64 lost then .error (.rpc "timeout")
        else .ok ⟨7, none, .binary "", some ⟨none, none⟩⟩ }
  order _ := id
  ends := ⟨fun _ => false, fun _ => true, fun _ => true⟩

theorem sample_lists (lost : UInt8) :
    Lists sampleCodecs sampleConfig sampleHistory (fun _ => 1) (sampleSession lost).rpc where
  lists := by
    intro after before passed h
    simp only [sampleSession, h, pageAt]
    rfl
  goesOn _ := le_rfl
  named := by
    simp only [sampleHistory, List.forall_mem_cons]
    exact ⟨rfl, rfl, List.forall_mem_nil _⟩
  reports := by
    intro t ht r hr
    simp only [sampleSession] at hr
    split at hr
    · cases hr
    · cases hr
      simp only [sampleHistory, List.mem_cons, List.not_mem_nil, or_false] at ht
      rcases ht with rfl | rfl
      · exact ⟨rfl, rfl, rfl, ⟨_, rfl, rfl⟩, rfl⟩
      · exact ⟨rfl, rfl, rfl, ⟨_, rfl, rfl⟩, rfl⟩

theorem sample_listening (lost : UInt8) : (sampleSession lost).Listening := by
  intro _
  exact ⟨rfl, rfl⟩

theorem requested_recorded (session : Session) : ∀ t ∈ sampleHistory,
    (recordIn sampleCodecs sampleConfig session t).isSome = true := by
  simp only [sampleHistory, List.forall_mem_cons]
  exact ⟨rfl, rfl, List.forall_mem_nil _⟩

theorem requested_alive (session : Session) (ht : t ∈ sampleHistory) :
    panics sampleCodecs sampleConfig session t = false := by
  rw [panics, Option.isNone_eq_false_iff.mpr (requested_recorded session t ht), Bool.and_false]

theorem requested_matching : ∀ t ∈ sampleHistory, matching sampleConfig t = true := by
  simp only [sampleHistory, List.forall_mem_cons]
  exact ⟨by decide +kernel, by decide +kernel, List.forall_mem_nil _⟩

theorem sample_sent {lost : UInt8} :
    Sent sampleCodecs sampleConfig (sampleSession lost) sampleHistory none t ↔
      t ∈ sampleHistory ∧ t.signature ≠ Vector.replicate 64 lost := by
  have hpassed : passed sampleCodecs sampleConfig (sampleSession lost)
      (due sampleHistory none).reverse = sampleHistory.reverse := by
    refine ((sample_listening lost).passed _).trans (List.takeWhile_eq_self_iff.mpr ?_)
    intro u hu
    rw [requested_alive _ (List.mem_reverse.mp hu)]
    rfl
  rw [Sent, hpassed, List.mem_reverse]
  apply and_congr_right
  intro ht
  rw [taken_isSome, and_iff_left ⟨requested_matching t ht, requested_alive _ ht⟩]
  by_cases h : t.signature = Vector.replicate 64 lost
  · simp [fetched, sampleSession, h, Except.isOk, Except.toBool]
  · simp [fetched, sampleSession, h, Except.isOk, Except.toBool]

theorem sample_distinct : (sampleHistory.map signature).Nodup := by decide

theorem sample_nonzero : ∀ t ∈ sampleHistory, t.signature ≠ noSignature := by
  simp only [sampleHistory, List.forall_mem_cons]
  exact ⟨by decide, by decide, List.forall_mem_nil _⟩

/-- The second request cannot be fetched in the first run. The second run delivers it. -/
theorem second_request_resumed : ∃ s₁ s₂,
    Ends (streamHistory sampleCodecs sampleConfig (sampleSession 2) none)
      s₁ ∧
    Ends (streamHistory sampleCodecs sampleConfig (sampleSession 0)
      (s₁.resumeFrom none)) s₂ ∧
    ∀ t ∈ sampleHistory,
      Delivered sampleCodecs sampleConfig (sampleSession 2) s₁ t ∨
        Delivered sampleCodecs sampleConfig (sampleSession 0) s₂ t := by
  have hagain : Lists sampleCodecs sampleConfig ([] ++ sampleHistory) (fun _ => 1)
      (sampleSession 0).rpc := sample_lists 0
  have hstart : ∀ t ∈ ([] : List ChainTransaction),
      ((none : Option SyncCheckpoint).getD .new).afterSignature ≠ some t.signature :=
    List.forall_mem_nil _
  obtain ⟨s₁, s₂, hends₁, hends₂, -, -, hiff⟩ := resumed_stream_iff (sample_lists 2) hagain
    sample_distinct sample_nonzero hstart (sample_listening 0)
  refine ⟨s₁, s₂, hends₁, hends₂, fun t ht => hiff.mpr ?_ t ht (requested_matching t ht)⟩
  have hunsent {t : ChainTransaction} (ht : t ∈ sampleHistory)
      (h : ¬ Sent sampleCodecs sampleConfig (sampleSession 2) sampleHistory none t) :
      t = requested 2 := by
    simp only [sample_sent, ht, true_and, not_not] at h
    exact List.inj_on_of_nodup_map sample_distinct ht List.mem_cons_self h
  intro t ht _ hnot
  rw [hunsent ht hnot]
  refine ⟨by decide, fun u hu => ?_, fun u hu _ => requested_alive _ hu.1⟩
  obtain ⟨hu, hne⟩ := sample_sent.mp hu.1
  simp only [sampleHistory, List.mem_cons, List.not_mem_nil, or_false] at hu
  rcases hu with rfl | rfl
  · exact absurd rfl hne
  · exact List.Sublist.refl _

/-- The first request cannot be fetched in the first run, and the checkpoint of the second one is
published: the second run starts after both. -/
theorem first_request_skipped : ∃ s₁ s₂,
    Lists sampleCodecs sampleConfig sampleHistory (fun _ => 1)
      (sampleSession 1).rpc ∧
    Lists sampleCodecs sampleConfig sampleHistory (fun _ => 1) (sampleSession 0).rpc ∧
    Ends (streamHistory sampleCodecs sampleConfig (sampleSession 1) none)
      s₁ ∧
    Ends (streamHistory sampleCodecs sampleConfig (sampleSession 0)
      (s₁.resumeFrom none)) s₂ ∧
    matching sampleConfig (requested 1) = true ∧
    ¬ Delivered sampleCodecs sampleConfig (sampleSession 1) s₁ (requested 1) ∧
    ¬ Delivered sampleCodecs sampleConfig (sampleSession 0) s₂ (requested 1) := by
  obtain ⟨s₁, hends₁, h₁⟩ :=
    stream_ends (sample_lists 1) sample_distinct none
  obtain ⟨s₂, hends₂, h₂⟩ :=
    stream_ends (sample_lists 0) sample_distinct (s₁.resumeFrom none)
  have hfirst : requested 1 ∈ sampleHistory := List.mem_cons_of_mem _ List.mem_cons_self
  refine ⟨s₁, s₂, sample_lists _, sample_lists _, hends₁, hends₂, requested_matching _ hfirst,
    fun h => ?_, fun h => ?_⟩
  · have hsub : passed sampleCodecs sampleConfig (sampleSession 1)
        (due sampleHistory none).reverse ⊆ sampleHistory :=
      fun u hu => List.mem_reverse.mp ((List.takeWhile_sublist _).subset hu)
    have hsent : Sent sampleCodecs sampleConfig (sampleSession 1) sampleHistory none
        (requested 1) := (h₁.delivered_iff sample_distinct hsub hfirst).mp h
    exact (sample_sent.mp hsent).2 rfl
  · have hsub : passed sampleCodecs sampleConfig (sampleSession 0)
        (due sampleHistory (s₁.resumeFrom none)).reverse ⊆ sampleHistory := fun u hu =>
      prefix_newer.subset (List.mem_reverse.mp ((List.takeWhile_sublist _).subset hu))
    have hmem := ((h₂.delivered_iff sample_distinct hsub hfirst).mp h).1
    have hdue := List.mem_reverse.mp ((List.takeWhile_sublist _).subset hmem)
    have hdistinct : (([] ++ sampleHistory).map signature).Nodup := sample_distinct
    have hall := ((mem_resumed h₁ hdistinct sample_nonzero (List.forall_mem_nil _)).mp hdue).2
    have hpublished : Published sampleCodecs sampleConfig (sampleSession 1) sampleHistory
        none (requested 2) := ⟨sample_sent.mpr ⟨List.mem_cons_self, by decide⟩, rfl⟩
    have horder := (hall _ hpublished).map signature
    exact absurd horder (by decide)

end Sample

end HistoryStream
