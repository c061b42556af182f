import PsyDogeBridge.BufferLocks
import PsyDogeBridge.UploadedGroups

/-! The history of one mint buffer, whoever calls the program and in which order. The program
never compares the length of a group with the size it should have; that a buffer which accepts
`lock` is complete follows from the counter and from the length of the account. -/
namespace BufferHistory

open PodLayout CheckedSteps SolanaRuntime BridgeData MintGroups PendingMintsTracker
  PendingMintBuffer BufferSteps UploadedGroups BufferLocks

structure BufferCall where
  inv : Invocation
  data : Bytes

def BufferCall.storage (call : BufferCall) : Option Pubkey := call.inv.accounts.head?.map (·.key)

/-- An instruction of the program that is accepted. One that fails changes nothing. -/
def Accepts (p : Platform) (c : Crypto) (l : Ledger) (call : BufferCall) (l' : Ledger) : Prop :=
  call.inv.programId = PENDING_MINT_BUFFER_BUILDER_PROGRAM_ID ∧
    processInstruction p c call.inv l call.data = .ok l'

abbrev Log := ℕ → List Bytes

def Log.after (log : Log) : BufferOp → Log
  | .reinit _ => fun _ => []
  | .insert g x => Function.update log g.toNat (log g.toNat ++ [x])
  | _ => log

def Log.note (k : Pubkey) (log : Log) (call : BufferCall) : Log :=
  if call.storage = some k then (BufferOp.ofData call.data).elim log log.after else log

def insertedSinceReinit (k : Pubkey) (calls : List BufferCall) : Log :=
  calls.foldl (Log.note k) fun _ => []

theorem insertedSinceReinit_snoc (k : Pubkey) (calls : List BufferCall) (call : BufferCall) :
    insertedSinceReinit k (calls ++ [call]) = (insertedSinceReinit k calls).note k call := by
  rw [insertedSinceReinit, List.foldl_append]
  rfl

section Operations

variable {c : Crypto} {signs : Pubkey → Prop} {op : BufferOp} {d d' : Bytes} {log : Log}

structure Recorded (c : Crypto) (d : Bytes) (log : Log) : Prop where
  filled : ∃ up, (groupsOf d ≠ 0 → Uploaded c d up) ∧ ∀ g < groupsOf d, log g = (up g).toList
  empty : groupsOf d = 0 → initializedOf d = 0

theorem recorded_empty (hg : groupsOf d = 0) (hi : initializedOf d = 0) : Recorded c d log := by
  refine ⟨⟨fun _ => none, fun h => absurd hg h, ?_⟩, fun _ => hi⟩
  intro g hlt
  rw [hg] at hlt
  exact absurd hlt (Nat.not_lt_zero g)

theorem Performs.log_after {up : ℕ → Option Bytes} (h : Performs c signs op d d')
    (hup : groupsOf d ≠ 0 → Uploaded c d up) (hlog : ∀ g < groupsOf d, log g = (up g).toList) :
    ∀ g < groupsOf d', log.after op g = (BufferOp.uploads up op g).toList := by
  intro g hg
  cases h with
  | setup hd hh =>
    obtain ⟨-, rfl⟩ := setup_eq_ok.mp hh
    rw [groupsOf, mintBufferHeader_withHeader hd] at hg
    exact absurd hg (Nat.not_lt_zero g)
  | reinit hd hd₁ hh => rfl
  | resize hd hl ht =>
    rw [groupsOf, mintBufferHeader_grown _ hd] at hg
    exact hlog g hg
  | @insert _ d₁ _ groupIndex x hd hd₁ hi =>
    obtain ⟨hup₁, hins, heq, hgroups⟩ := insert_uploads hup hd hd₁ hi
    have hfree := hup₁.up_eq_none hins
    have hlt := hins.group
    rw [hgroups] at hlt
    rw [heq, groupsOf, inserted_header hins] at hg
    change g < groupsOf d₁ at hg
    rw [hgroups] at hg
    by_cases hne : g = groupIndex.toNat
    · subst hne
      rw [Log.after, BufferOp.uploads, Function.update_self, Function.update_self,
        hlog _ hlt, hfree]
      rfl
    · rw [Log.after, BufferOp.uploads, Function.update_of_ne hne, Function.update_of_ne hne]
      exact hlog g hg
  | lock k hk hd hh =>
    obtain ⟨-, -, -, rfl⟩ := lock_ok.mp hh
    rw [groupsOf, mintBufferHeader_withHeader hd] at hg
    exact hlog g hg
  | unlock k hk hd hh =>
    obtain ⟨-, -, rfl⟩ := unlock_ok.mp hh
    rw [groupsOf, mintBufferHeader_withHeader hd] at hg
    exact absurd hg (Nat.not_lt_zero g)

theorem Performs.empty_after {up : ℕ → Option Bytes} (h : Performs c signs op d d')
    (hup : groupsOf d ≠ 0 → Uploaded c d up) (hempty : groupsOf d = 0 → initializedOf d = 0)
    (hg : groupsOf d' = 0) :
    initializedOf d' = 0 := by
  have hperforms := h
  cases h with
  | setup hd hh =>
    obtain ⟨-, rfl⟩ := setup_eq_ok.mp hh
    rw [initializedOf, mintBufferHeader_withHeader hd]
    rfl
  | reinit => exact (Performs.cleared hperforms).init
  | resize hd hl ht =>
    rw [groupsOf, mintBufferHeader_grown _ hd] at hg
    rw [initializedOf, mintBufferHeader_grown _ hd]
    exact hempty hg
  | insert hd hd₁ hi =>
    obtain ⟨-, hins, heq, -⟩ := insert_uploads hup hd hd₁ hi
    rw [heq, groupsOf, inserted_header hins] at hg
    exact absurd hg (Nat.ne_of_gt (Nat.lt_of_le_of_lt (Nat.zero_le _) hins.group))
  | lock k hk hd hh =>
    obtain ⟨-, -, -, rfl⟩ := lock_ok.mp hh
    rw [groupsOf, mintBufferHeader_withHeader hd] at hg
    rw [initializedOf, mintBufferHeader_withHeader hd]
    exact hempty hg
  | unlock k hk hd hh =>
    obtain ⟨-, -, rfl⟩ := unlock_ok.mp hh
    rw [initializedOf, mintBufferHeader_withHeader hd]
    rfl

theorem Performs.recorded (hash : ∀ g x, op = .insert g x → c.sha256 x ≠ zeroBytes)
    (h : Performs c signs op d d') (hr : Recorded c d log) : Recorded c d' (log.after op) := by
  obtain ⟨up, hup, hlog⟩ := hr.filled
  refine ⟨⟨BufferOp.uploads up op, ?_, Performs.log_after h hup hlog⟩,
    Performs.empty_after h hup hr.empty⟩
  exact Performs.uploaded hash h hup

end Operations

section Complete

variable {c : Crypto} {d : Bytes} {log : Log}

/-- A buffer that is complete: each group was inserted once, with all its mints, its hash is the
hash of its mints, and the mints lie behind one another without a gap. -/
structure Complete (c : Crypto) (d : Bytes) (log : Log) : Prop where
  groups : groupsOf d = groupCount (countOf d)
  fits : 72 + 32 * groupsOf d + 40 * countOf d ≤ d.length
  once : ∀ g < groupsOf d, ∃ x, log g = [x] ∧ x.length = 40 * groupSize (countOf d) g ∧
    slice d (72 + 32 * g) 32 = (c.sha256 x).toList ∧
    slice d (72 + 32 * groupsOf d + 960 * g) (40 * groupSize (countOf d) g) = x
  tiled : slice d (72 + 32 * groupsOf d) (40 * countOf d) =
    (List.range (groupsOf d)).flatMap fun g => (log g).flatten

theorem tiled_of_records {groups n off k : ℕ} {data : ℕ → Bytes} (hgroups : groups = groupCount n)
    (hdata : ∀ g < groups, slice d (off + 960 * g) (40 * groupSize n g) = data g)
    (hk : k ≤ groups) : slice d off (40 * min (24 * k) n) = (List.range k).flatMap data := by
  induction k with
  | zero => simp [slice]
  | succ k ih =>
    have hlt : 24 * k < n := by
      unfold groupCount at hgroups
      omega
    have hsplit : 40 * min (24 * (k + 1)) n = 40 * min (24 * k) n + 40 * groupSize n k := by
      unfold groupSize
      omega
    have hoff : off + 40 * min (24 * k) n = off + 960 * k := by omega
    rw [hsplit, slice_add, ih (by omega), hoff, hdata k hk, List.range_succ, List.flatMap_append,
      List.flatMap_singleton]

theorem Recorded.group {g : ℕ} (h : Recorded c d log) (hfull : initializedOf d = countOf d)
    (hg : g < groupsOf d) : ∃ x, log g = [x] ∧ x.length = 40 * groupSize (countOf d) g ∧
      Inserted c d (groupsOf d) g x := by
  obtain ⟨up, hup, hlog⟩ := h.filled
  have huploaded := hup (Nat.ne_of_gt (Nat.lt_of_le_of_lt (Nat.zero_le g) hg))
  obtain ⟨x, hx, hlen⟩ := huploaded.up_full hfull hg
  refine ⟨x, ?_, hlen, huploaded.each g x hg hx⟩
  rw [hlog g hg, hx]
  rfl

theorem Recorded.groups (h : Recorded c d log) (hfull : initializedOf d = countOf d) :
    groupsOf d = groupCount (countOf d) := by
  by_cases hne : groupsOf d = 0
  · rw [← hfull, h.empty hne, hne]
    rfl
  · obtain ⟨up, hup, -⟩ := h.filled
    exact (hup hne).groups

theorem Recorded.complete (h : Recorded c d log) (hd : 72 ≤ d.length)
    (hfull : initializedOf d = countOf d) : Complete c d log := by
  have hgroups := h.groups hfull
  refine ⟨hgroups, ?_, ?_, ?_⟩
  · -- the last group ends where the mints end
    by_cases hzero : groupsOf d = 0
    · unfold groupCount at hgroups
      omega
    · obtain ⟨x, -, hlen, hins⟩ := h.group hfull (Nat.sub_one_lt hzero)
      have hinside := hins.inside
      unfold groupCount at hgroups
      unfold groupSize at hlen
      omega
  · intro g hg
    obtain ⟨x, hx, hlen, hins⟩ := h.group hfull hg
    refine ⟨x, hx, hlen, hins.hash, ?_⟩
    rw [← hlen]
    exact hins.records
  · have hall : min (24 * groupsOf d) (countOf d) = countOf d := by
      unfold groupCount at hgroups
      omega
    have hdata : ∀ g < groupsOf d, slice d (72 + 32 * groupsOf d + 960 * g)
        (40 * groupSize (countOf d) g) = (log g).flatten := by
      intro g hg
      obtain ⟨x, hx, hlen, hins⟩ := h.group hfull hg
      rw [hx, ← hlen, hins.records]
      simp
    have htiled := tiled_of_records hgroups hdata (Nat.le_refl _)
    rw [hall] at htiled
    exact htiled

end Complete

section Runs

variable {p : Platform} {c : Crypto} {k : Pubkey} {l₀ l l' : Ledger} {calls : List BufferCall}
  {call : BufferCall}

def Unused (a : Account) : Prop :=
  a.owner = PENDING_MINT_BUFFER_BUILDER_PROGRAM_ID → ∀ b ∈ a.data, b = 0

def BufferHolds (P : Bytes → Prop) (a : Account) : Prop :=
  a.owner = PENDING_MINT_BUFFER_BUILDER_PROGRAM_ID → HEADER_SIZE ≤ a.data.length → P a.data

theorem Unused.holds {P : Bytes → Prop} (hzero : ∀ d, 72 ≤ d.length → (∀ b ∈ d, b = 0) → P d)
    {a : Account} (h : Unused a) : BufferHolds P a :=
  fun ho hlong => hzero _ hlong (h ho)

theorem recorded_zeros {d : Bytes} {log : Log} (hd : 72 ≤ d.length) (hz : ∀ b ∈ d, b = 0) :
    Recorded c d log := by
  have hheader := mintBufferHeader_zeros hd hz
  apply recorded_empty
  · rw [groupsOf, hheader]
    decide
  · rw [initializedOf, hheader]
    decide

theorem Accepts.elsewhere (h : Accepts p c l call l') (hk : call.storage ≠ some k) :
    l' k = l k := by
  obtain ⟨-, ran⟩ := h
  obtain ⟨storage, rest, op, accounts, -, d, d', hw, -⟩ := processInstruction_performs ran
  rw [hw.eq]
  refine Function.update_of_ne ?_ _ _
  intro heq
  apply hk
  rw [BufferCall.storage, accounts, heq]
  rfl

theorem Accepts.performs {P : Bytes → Prop}
    (hzero : ∀ d, 72 ≤ d.length → (∀ b ∈ d, b = 0) → P d) (h : Accepts p c l call l')
    (hk : call.storage = some k) (hP : BufferHolds P (l k)) :
    ∃ op d, BufferOp.ofData call.data = some op ∧ Performs c call.inv.signs op d (l' k).data ∧
      P d ∧ ((l k).data = d ∨ (l k).data = []) := by
  obtain ⟨program, ran⟩ := h
  obtain ⟨storage, rest, op, accounts, hop, d, d', hw, hperforms⟩ := processInstruction_performs ran
  rw [BufferCall.storage, accounts] at hk
  cases hk
  refine ⟨op, d, hop, by rw [hw.data]; exact hperforms, ?_⟩
  rcases hw.before with hb | ⟨hb, hd⟩
  · rw [hb] at hP ⊢
    exact ⟨hP program hperforms.long, .inl rfl⟩
  · rw [hb]
    refine ⟨hzero d hperforms.long ?_, .inr rfl⟩
    rw [hd]
    exact fun b hb => List.eq_of_mem_replicate hb

/-- What the call inserts, if it inserts something, has a digest other than the empty slot. -/
def Hashed (c : Crypto) (call : BufferCall) : Prop :=
  ∀ g x, BufferOp.ofData call.data = some (.insert g x) → c.sha256 x ≠ zeroBytes

theorem Accepts.recorded (hash : Hashed c call) (h : Accepts p c l call l')
    (hr : BufferHolds (Recorded c · (insertedSinceReinit k calls)) (l k)) :
    BufferHolds (Recorded c · (insertedSinceReinit k (calls ++ [call]))) (l' k) := by
  intro ho hlong
  rw [insertedSinceReinit_snoc, Log.note]
  by_cases hk : call.storage = some k
  · obtain ⟨op, d, hop, hperforms, hbefore, -⟩ := h.performs (fun _ => recorded_zeros) hk hr
    rw [if_pos hk, hop]
    exact Performs.recorded (fun g x hop' => hash g x (hop' ▸ hop)) hperforms hbefore
  · rw [if_neg hk]
    rw [h.elsewhere hk] at ho hlong ⊢
    exact hr ho hlong

theorem run_recorded (hunused : Unused (l₀ k))
    (run : Run (fun l call l' => Accepts p c l call l' ∧ Hashed c call) l₀ calls l) :
    BufferHolds (Recorded c · (insertedSinceReinit k calls)) (l k) := by
  refine Run.history (P := fun _ calls l =>
    BufferHolds (Recorded c · (insertedSinceReinit k calls)) (l k)) ?_ ?_ run
  · exact hunused.holds fun _ => recorded_zeros
  · intro calls l call l' _ hr h
    exact h.1.recorded h.2 hr

/-- The system program has no key pair. Its address is the one of 32 zeros, which the header
takes to mean that no locker was set. -/
def signedByKeys (call : BufferCall) : Prop := ¬ call.inv.signs SYSTEM_PROGRAM_ID

def HasLocker (d : Bytes) : Prop :=
  (mintBufferHeader d).isLocked ≠ 0 → (mintBufferHeader d).authorizedLockerPublicKey ≠ zeroBytes

theorem hasLocker_zeros {d : Bytes} (hd : 72 ≤ d.length) (hz : ∀ b ∈ d, b = 0) : HasLocker d := by
  intro hlocked
  rw [mintBufferHeader_zeros hd hz] at hlocked
  exact absurd (by decide) hlocked

theorem run_hasLocker (hunused : Unused (l₀ k))
    (run : Run (fun l call l' => Accepts p c l call l' ∧ Hashed c call) l₀ calls l)
    (hkeys : ∀ call ∈ calls, signedByKeys call) :
    BufferHolds HasLocker (l k) := by
  refine Run.history (P := fun _ _ l => BufferHolds HasLocker (l k)) ?_ ?_ (run.restrict hkeys)
  · exact hunused.holds fun _ => hasLocker_zeros
  · intro calls l call l' before hlocker hstep ho hlong
    obtain ⟨⟨h, -⟩, hkeys⟩ := hstep
    by_cases hk : call.storage = some k
    · have hr := run_recorded hunused (before.mono fun _ _ _ h => h.1)
      obtain ⟨op, d, -, hperforms, hbefore, -⟩ := h.performs (fun _ => recorded_zeros) hk hr
      obtain ⟨up, hup, -⟩ := hbefore.filled
      intro hlocked hzero
      -- it is this instruction that locked the buffer, so its locker has signed it
      obtain ⟨-, -, hsigns⟩ := Performs.locked_after hperforms hup hlocked
      rw [hzero] at hsigns
      exact hkeys hsigns
    · rw [h.elsewhere hk] at ho hlong ⊢
      exact hlocker ho hlong

theorem Performs.lock_full {signs : Pubkey → Prop} {d d' : Bytes}
    (h : Performs c signs .lock d d') : 72 ≤ d'.length ∧ initializedOf d' = countOf d' := by
  cases h with
  | lock k hk hd hh =>
    obtain ⟨-, hfull, -, rfl⟩ := lock_ok.mp hh
    rw [withHeader_length hd, initializedOf, countOf, mintBufferHeader_withHeader hd]
    exact ⟨hd, congrArg UInt16.toNat hfull⟩

/-- A buffer that accepts `lock` is complete, and a locked buffer changes only when its locker
unlocks it. -/
theorem locked_buffer_complete (unused : Unused (l₀ k)) (run : Run (Accepts p c) l₀ calls l)
    (hash : ∀ call ∈ calls, Hashed c call) (accepted : Accepts p c l call l') :
    (call.storage = some k → BufferOp.ofData call.data = some .lock →
      Complete c (l' k).data (insertedSinceReinit k calls)) ∧
    ((∀ call ∈ calls, signedByKeys call) → ∀ locker, LockedFor locker (l k) →
      l' k = l k ∨ (call.storage = some k ∧ BufferOp.ofData call.data = some .unlock ∧
        call.inv.signs locker)) := by
  have hashed := run.restrict hash
  constructor
  · intro hk hlock
    have hr := run_recorded unused hashed
    obtain ⟨op, d, hop, hperforms, hbefore, -⟩ := accepted.performs (fun _ => recorded_zeros) hk hr
    rw [hlock] at hop
    cases hop
    obtain ⟨hlong, hfull⟩ := Performs.lock_full hperforms
    refine (Performs.recorded (fun g x hinsert => ?_) hperforms hbefore).complete hlong hfull
    cases hinsert
  · intro hkeys locker hlocked
    by_cases hk : call.storage = some k
    · have hlocker := run_hasLocker unused hashed hkeys
      have hz := hlocker hlocked.owner hlocked.long hlocked.locked
      rw [hlocked.isLocker] at hz
      obtain ⟨op, d, hop, hperforms, -, hd⟩ :=
        accepted.performs (fun _ => hasLocker_zeros) hk hlocker
      rcases hd with rfl | hd
      · obtain ⟨rfl, hsigns⟩ := Performs.locked hperforms hz hlocked.isLocker hlocked.locked
        exact .inr ⟨hk, hop, hsigns⟩
      · have hlong := hlocked.long
        rw [hd] at hlong
        exact absurd hlong (by decide)
    · exact .inl (accepted.elsewhere hk)

end Runs

section Samples

open LocalCluster (crypto)

def bufferKey : Pubkey := Vector.replicate 32 1
def lockerKey : Pubkey := Vector.replicate 32 2
def writerKey : Pubkey := Vector.replicate 32 3

def samplePlatform : Platform :=
  ⟨fun _ _ => (bufferKey, 255), fun _ _ => none, fun _ l _ _ => some l, true⟩

def sampleCall (signer : Pubkey) (data : Bytes) : BufferCall :=
  ⟨⟨PENDING_MINT_BUFFER_BUILDER_PROGRAM_ID,
    [⟨bufferKey, false, true⟩, ⟨signer, true, true⟩, ⟨SYSTEM_PROGRAM_ID, false, false⟩], 0, true⟩,
    data⟩

def firstGroup : Bytes := List.replicate 960 9
def lastGroup : Bytes := List.replicate 40 5

/-- 25 mints, the second group first. -/
def uploadCalls : List BufferCall :=
  [sampleCall writerKey (0 :: lockerKey.toList ++ writerKey.toList),
    sampleCall writerKey [1, 25, 0],
    sampleCall writerKey (3 :: 1 :: 0 :: lastGroup),
    sampleCall writerKey (3 :: 0 :: 0 :: firstGroup)]

def lockCall : BufferCall := sampleCall lockerKey [4]

def unusedLedger : Ledger := fun _ => ⟨SYSTEM_PROGRAM_ID, []⟩

def execute (l : Ledger) (call : BufferCall) : Ledger :=
  match processInstruction samplePlatform crypto call.inv l call.data with
  | .ok l' => l'
  | .error _ => l

def accepts (l : Ledger) (call : BufferCall) : Bool :=
  decide (call.inv.programId = PENDING_MINT_BUFFER_BUILDER_PROGRAM_ID) &&
    (processInstruction samplePlatform crypto call.inv l call.data).isOk

theorem accepts_execute {l : Ledger} {call : BufferCall} (h : accepts l call = true) :
    Accepts samplePlatform crypto l call (execute l call) := by
  rw [accepts, Bool.and_eq_true, decide_eq_true_eq] at h
  refine ⟨h.1, ?_⟩
  have hok := h.2
  unfold execute
  cases hr : processInstruction samplePlatform crypto call.inv l call.data with
  | ok l' => rfl
  | error e =>
    rw [hr] at hok
    cases hok

def acceptsAll : Ledger → List BufferCall → Bool
  | _, [] => true
  | l, call :: calls => accepts l call && acceptsAll (execute l call) calls

theorem run_execute {l : Ledger} {calls : List BufferCall} (h : acceptsAll l calls = true) :
    Run (Accepts samplePlatform crypto) l calls (calls.foldl execute l) := by
  induction calls generalizing l with
  | nil => exact .nil l
  | cons call calls ih =>
    rw [acceptsAll, Bool.and_eq_true] at h
    exact (Run.single (accepts_execute h.1)).append (ih h.2)

def uploadedLedger : Ledger := uploadCalls.foldl execute unusedLedger

theorem uploadCalls_hashed : ∀ call ∈ uploadCalls, Hashed crypto call := by
  have hfirst : crypto.sha256 firstGroup ≠ zeroBytes := by decide +kernel
  have hlast : crypto.sha256 lastGroup ≠ zeroBytes := by decide +kernel
  simp only [uploadCalls, List.forall_mem_cons]
  refine ⟨?_, ?_, ?_, ?_, List.forall_mem_nil _⟩
  · intro g x h
    cases h
  · intro g x h
    cases h
  · intro g x h
    cases h
    exact hlast
  · intro g x h
    cases h
    exact hfirst

theorem two_groups_locked : Complete crypto (execute uploadedLedger lockCall bufferKey).data
    (insertedSinceReinit bufferKey uploadCalls) := by
  have hunused : Unused (unusedLedger bufferKey) := fun _ _ hb => absurd hb List.not_mem_nil
  have hrun : Run (Accepts samplePlatform crypto) unusedLedger uploadCalls uploadedLedger :=
    run_execute (by decide +kernel)
  have haccepted : Accepts samplePlatform crypto uploadedLedger lockCall
      (execute uploadedLedger lockCall) := accepts_execute (by decide +kernel)
  have hstorage : lockCall.storage = some bufferKey := rfl
  have hlock : BufferOp.ofData lockCall.data = some .lock := rfl
  exact (locked_buffer_complete hunused hrun uploadCalls_hashed haccepted).1 hstorage hlock

end Samples

end BufferHistory
