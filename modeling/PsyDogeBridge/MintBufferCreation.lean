import PsyDogeBridge.ManualClaimClient
import PsyDogeBridge.MintUpload
import PsyDogeBridge.RetriedBatch

/-! `create_pending_mint_buffer` of the operator's client. It creates the operator's buffer when it
is not there, reinitializes it and inserts the groups in concurrent batches. It never calls
`resize`: each insert that is accepted lets the buffer grow a little, and one that is rejected is
rolled back together with its growth. -/
namespace MintBufferCreation

open PodLayout CheckedSteps SolanaRuntime BridgeData MintGroups PendingMintsTracker
  PendingMintBuffer BufferSteps UploadedGroups BufferLocks BufferHistory MintBuilders MintUpload
  RetriedBatch
open ManualClaimClient (Instruction)
open LocalCluster (crypto)

section Client

/-- The fields that decide what is sent; `maxRetries` is the one of the retry configuration. -/
structure ParallelBufferManager where
  operator : Pubkey
  maxRetries : ℕ
  groupBatchSize : ℕ

def derivePendingMintBufferPda (p : Platform) (programId writer : Pubkey) : Pubkey :=
  (p.findProgramAddress [MINT_BUFFER_SEED, writer.toList] programId).1

def pendingMintSetup (programId account locker writer : Pubkey) : Instruction where
  programId := programId
  accounts := [⟨account, false, true⟩, ⟨SYSTEM_PROGRAM_ID, false, false⟩]
  data := 0 :: (locker.toList ++ writer.toList)

def operatorInstruction (programId account payer : Pubkey) (data : Bytes) : Instruction where
  programId := programId
  accounts := [⟨account, false, true⟩, ⟨payer, true, true⟩, ⟨SYSTEM_PROGRAM_ID, false, false⟩]
  data := data

variable (p : Platform) (c : Crypto) (now : ℤ) (m : ParallelBufferManager) (programId : Pubkey)

def send (l : Ledger) (ix : Instruction) : BufferResult Ledger :=
  processInstruction p c (ix.invocation now) l ix.data

/-- The transfer that pays the rent goes with `setup`. -/
def ensurePendingMintBufferExists (l : Ledger) (buffer locker : Pubkey) : BufferResult Ledger :=
  if l buffer = ⟨SYSTEM_PROGRAM_ID, []⟩ then
    send p c now l (pendingMintSetup programId buffer locker m.operator)
  else pure l

def reinitPendingMintBuffer (l : Ledger) (buffer : Pubkey) (totalMints : UInt16) :
    BufferResult Ledger :=
  send p c now l (operatorInstruction programId buffer m.operator (pendingMintReinit totalMints))

def insertPendingMintGroup (buffer : Pubkey) (mints : List PendingMint) (groupIdx : ℕ)
    (l : Ledger) : BufferResult Ledger := do
  let groupData ← orFail ((PendingMintBufferBuilder.mk mints).serializeGroup groupIdx) .panic
  send p c now l (operatorInstruction programId buffer m.operator
    (pendingMintInsert (UInt16.ofNat groupIdx) groupData))

/-- What is done before the groups are inserted, and the batches of the groups. A loop with the
step zero panics. -/
def preparePendingMintBuffer (l : Ledger) (locker : Pubkey) (mints : List PendingMint) :
    BufferResult (Ledger × List (List ℕ)) := do
  let buffer := derivePendingMintBufferPda p programId m.operator
  let l ← ensurePendingMintBufferExists p c now m programId l buffer locker
  if mints = [] then pure (l, [])
  else do
    let l ← reinitPendingMintBuffer p c now m programId l buffer (UInt16.ofNat mints.length)
    ensure (0 < m.groupBatchSize) .panic
    pure (l, divided m.groupBatchSize (PendingMintBufferBuilder.mk mints).numGroups)

/-- What `create_pending_mint_buffer` may do, when all its transactions are delivered. -/
inductive CreatePendingMintBuffer (l : Ledger) (locker : Pubkey) (mints : List PendingMint) :
    BufferResult Ledger → Prop where
  | unprepared {e} (h : preparePendingMintBuffer p c now m programId l locker mints = .error e) :
      CreatePendingMintBuffer l locker mints (.error e)
  | inserted {l₁ batches result}
      (h : preparePendingMintBuffer p c now m programId l locker mints = .ok (l₁, batches))
      (sent : Batches (insertPendingMintGroup p c now m programId
        (derivePendingMintBufferPda p programId m.operator) mints) m.maxRetries l₁ batches result) :
      CreatePendingMintBuffer l locker mints result

/-- A lock by the authorized locker is accepted, and the locked header counts `n` mints. -/
def LocksWith (k : Pubkey) (n : ℕ) (l : Ledger) : Prop :=
  ∀ inv, LockerInvocation k (mintBufferHeader (l k).data).authorizedLockerPublicKey inv →
    ∃ l', Accepts p c l ⟨inv, pendingMintLock⟩ l' ∧ countOf (l' k).data = n

/-- The function returns, always with success, and then the buffer can be locked. -/
def CreatesLockable (l : Ledger) (locker : Pubkey) (mints : List PendingMint) : Prop :=
  (∃ result, CreatePendingMintBuffer p c now m programId l locker mints result) ∧
    ∀ result, CreatePendingMintBuffer p c now m programId l locker mints result →
      ∃ l', result = .ok l' ∧
        LocksWith p c (derivePendingMintBufferPda p programId m.operator) mints.length l'

inductive Prior (k w : Pubkey) (l : Ledger) : Prop where
  | absent (account : l k = ⟨SYSTEM_PROGRAM_ID, []⟩)
  | unlocked {b d} (account : l k = ⟨PENDING_MINT_BUFFER_BUILDER_PROGRAM_ID, d⟩)
      (writable : Writable w b d)

/-- An empty list needs a buffer that counts no mints already, since it is not reinitialized. For
other lists the group count must be right, and the first batch must have room in the buffer after
the growth of `reinit` and of one insert. -/
def Suits (groupBatchSize : ℕ) (mints : List PendingMint) (d : Bytes) : Prop :=
  if mints = [] then d = [] ∨ (countOf d = 0 ∧ initializedOf d = 0)
  else 0 < groupBatchSize ∧ mints.length ≤ 65512 ∧
    72 + 32 * groupCount mints.length + 40 * min mints.length (24 * groupBatchSize) ≤
      max 72 d.length + 20480

end Client

variable {p : Platform} {c : Crypto} {now : ℤ} {m : ParallelBufferManager} {l : Ledger}
  {k w b locker : Pubkey} {d : Bytes} {ms : List PendingMint}

section Preparing

variable {data : Bytes}

theorem operatorInstruction_valid :
    WriterInvocation k w ((operatorInstruction PENDING_MINT_BUFFER_BUILDER_PROGRAM_ID k w
      data).invocation now) :=
  ⟨rfl, ⟨_, _, _, _, rfl, rfl, rfl, rfl⟩, ⟨⟨k, false, true⟩, by simp [operatorInstruction,
    Instruction.invocation], rfl, rfl⟩, ⟨⟨w, true, true⟩, by simp [operatorInstruction,
    Instruction.invocation], rfl, rfl⟩, ⟨⟨SYSTEM_PROGRAM_ID, false, false⟩,
    by simp [operatorInstruction, Instruction.invocation], rfl⟩, rfl⟩

theorem setup_ok (hpda : k = derivePendingMintBufferPda p PENDING_MINT_BUFFER_BUILDER_PROGRAM_ID w)
    (hk : l k = ⟨SYSTEM_PROGRAM_ID, []⟩) :
    send p c now l (pendingMintSetup PENDING_MINT_BUFFER_BUILDER_PROGRAM_ID k locker w) =
      .ok (Function.update l k ⟨PENDING_MINT_BUFFER_BUILDER_PROGRAM_ID, setupBuffer locker w⟩) := by
  rw [send]
  generalize hinv : (pendingMintSetup PENDING_MINT_BUFFER_BUILDER_PROGRAM_ID k locker w).invocation
    now = inv
  have hprogram : inv.programId = PENDING_MINT_BUFFER_BUILDER_PROGRAM_ID := by rw [← hinv]; rfl
  have haccounts : inv.accounts = [⟨k, false, true⟩, ⟨SYSTEM_PROGRAM_ID, false, false⟩] := by
    rw [← hinv]
    rfl
  have hfunds : inv.fundsSuffice = true := by rw [← hinv]; rfl
  have hwrites : inv.writes k := ⟨⟨k, false, true⟩, by simp [haccounts], rfl, rfl⟩
  have hsystem : inv.lists SYSTEM_PROGRAM_ID :=
    ⟨⟨SYSTEM_PROGRAM_ID, false, false⟩, by simp [haccounts], rfl⟩
  have hlocker : locker.toList.length = 32 := Vector.length_toList
  have hwriter : w.toList.length = 32 := Vector.length_toList
  have hlen : (locker.toList ++ w.toList).length = 64 := by
    rw [List.length_append, hlocker, hwriter]
  have hcreated : allocateIfEmpty inv l k =
      .ok (Function.update l k ⟨PENDING_MINT_BUFFER_BUILDER_PROGRAM_ID, List.replicate 72 0⟩) := by
    have hempty : (l k).data.length = 0 := by rw [hk]; rfl
    rw [allocateIfEmpty, if_pos hempty]
    simp only [bind_ok, ensure_ok, exists_const, createDerived_ok]
    refine ⟨hfunds, hsystem, hwrites, hfunds, ⟨by rw [hk], by rw [hk]⟩, ?_⟩
    rw [hprogram]
  have hzeros : Header.setup (mintBufferHeader (List.replicate 72 0)) locker w =
      .ok ⟨locker, w, 0, 0, 0, 0, 0⟩ := setup_eq_ok.mpr ⟨by decide, rfl⟩
  rw [pendingMintSetup, processInstruction, haccounts]
  change processSetup p inv l ⟨k, false, true⟩ (locker.toList ++ w.toList) = _
  simp only [processSetup, bind_ok, ensure_ok, exists_const, hlen, List.take_left' hlocker,
    List.drop_left' hlocker, hashPod_decode, hprogram, hcreated, Except.ok.injEq, exists_eq_left',
    Function.update_self, updateHeader_ok, writeData_ok, hzeros, List.length_replicate]
  refine ⟨trivial, hpda, trivial, Nat.le_refl _, _, ⟨Nat.le_refl _, rfl⟩,
    .inr ⟨trivial, hwrites⟩, ?_⟩
  rw [Ledger.setData, Function.update_self, Function.update_idem]
  rfl

structure Opened (l l₁ : Ledger) (k w b : Pubkey) (d : Bytes) : Prop where
  account : l₁ k = ⟨PENDING_MINT_BUFFER_BUILDER_PROGRAM_ID, d⟩
  writable : Writable w b d
  length : d.length = max 72 (l k).data.length
  counts : countOf d = 0 ∧ initializedOf d = 0 ↔
    (l k).data = [] ∨ (countOf (l k).data = 0 ∧ initializedOf (l k).data = 0)

theorem Prior.exists_opened
    (hpda : k = derivePendingMintBufferPda p PENDING_MINT_BUFFER_BUILDER_PROGRAM_ID m.operator)
    (prior : Prior k m.operator l) :
    ∃ l₁ b d, ensurePendingMintBufferExists p c now m PENDING_MINT_BUFFER_BUILDER_PROGRAM_ID l k
      locker = .ok l₁ ∧ Opened l l₁ k m.operator b d := by
  cases prior with
  | absent account =>
    refine ⟨Function.update l k ⟨PENDING_MINT_BUFFER_BUILDER_PROGRAM_ID,
      setupBuffer locker m.operator⟩, locker, setupBuffer locker m.operator, ?_,
      Function.update_self .., setupBuffer_writable, ?_, ?_⟩
    · rw [ensurePendingMintBufferExists, if_pos account]
      exact setup_ok hpda account
    · rw [setupBuffer_length, account]
      rfl
    · rw [countOf, initializedOf, setupBuffer_header, account]
      exact ⟨fun _ => .inl rfl, fun _ => ⟨rfl, rfl⟩⟩
  | @unlocked b d account writable =>
    have hlong := writable.long
    have hne : d ≠ [] := by
      rintro rfl
      exact absurd hlong (by decide)
    refine ⟨l, b, d, ?_, account, writable, ?_, ?_⟩
    · have hthere : l k ≠ ⟨SYSTEM_PROGRAM_ID, []⟩ := by
        rw [account]
        intro heq
        exact hne (congrArg Account.data heq)
      rw [ensurePendingMintBufferExists, if_neg hthere]
      rfl
    · rw [account]
      exact (Nat.max_eq_right hlong).symm
    · rw [account]
      exact ⟨.inr, fun h => h.resolve_left hne⟩

end Preparing

section Inserting

variable {l' : Ledger} {done : List ℕ} {g n : ℕ}

section

variable (hk : l k = ⟨PENDING_MINT_BUFFER_BUILDER_PROGRAM_ID, d⟩)
include hk

theorem performed {call : BufferCall} {op : BufferOp} (h : Accepts p c l call l')
    (hstorage : call.storage = some k) (hlong : 72 ≤ d.length)
    (hop : BufferOp.ofData call.data = some op) : Performs c call.inv.signs op d (l' k).data := by
  obtain ⟨op', d', hop', hperforms, -, hsame⟩ :=
    h.performs (P := fun _ => True) (fun _ _ _ => trivial) hstorage fun _ _ => trivial
  rw [hop, Option.some.injEq] at hop'
  rw [hk] at hsame
  rcases hsame with heq | hnil
  · rw [hop', show d = d' from heq]
    exact hperforms
  · rw [show d = [] from hnil] at hlong
    exact absurd hlong (by decide)

theorem locksWith_iff (hd : Writable w b d) :
    LocksWith p c k n l ↔ initializedOf d = countOf d ∧ countOf d = n := by
  have hlocker : (mintBufferHeader (l k).data).authorizedLockerPublicKey = b := by
    rw [hk]
    exact hd.locker
  have hlocked : countOf (withHeader d { mintBufferHeader d with isLocked := 1 }) = countOf d := by
    rw [countOf, mintBufferHeader_withHeader hd.long]
    rfl
  rw [LocksWith, hlocker]
  constructor
  · intro h
    let inv : Invocation := ⟨PENDING_MINT_BUFFER_BUILDER_PROGRAM_ID,
      [⟨k, false, true⟩, ⟨b, true, false⟩], 0, true⟩
    have hinv : LockerInvocation k b inv :=
      ⟨rfl, ⟨_, _, _, rfl, rfl, rfl, rfl⟩, ⟨⟨k, false, true⟩, by simp [inv], rfl, rfl⟩⟩
    obtain ⟨l', haccepts, hcount⟩ := h inv hinv
    have hop : BufferOp.ofData pendingMintLock = some .lock := rfl
    have hperforms := performed hk haccepts rfl hd.long hop
    generalize hafter : (l' k).data = after at hperforms hcount
    cases hperforms with
    | lock signer _ _ hh =>
      obtain ⟨-, hfull, -, rfl⟩ := lock_ok.mp hh
      rw [hlocked] at hcount
      exact ⟨congrArg UInt16.toNat hfull, hcount⟩
  · rintro ⟨hfull, hcount⟩ inv hinv
    refine ⟨_, hinv.lock hk hd (UInt16.toNat_inj.mp hfull), ?_⟩
    rw [setData_self]
    exact hlocked.trans hcount

theorem insert_fits (h : Filling c ms m.operator b done d) (hle : ms.length ≤ 65535)
    (hg : g < groupCount ms.length)
    (hok : insertPendingMintGroup p c now m PENDING_MINT_BUFFER_BUILDER_PROGRAM_ID k ms g l =
      .ok l') :
    72 + 32 * groupCount ms.length + 40 * min ms.length (24 * (g + 1)) ≤
      (grown d (Header.getTotalBufferSize (mintBufferHeader d))).length := by
  have hindex := groupIndex_toNat hle hg
  have hgrow := h.grow
  rw [insertPendingMintGroup, serializeGroup_eq hg] at hok
  have haccepts : Accepts p c l ⟨(operatorInstruction PENDING_MINT_BUFFER_BUILDER_PROGRAM_ID k
      m.operator (pendingMintInsert (UInt16.ofNat g) (groupBytes ms g))).invocation now,
      pendingMintInsert (UInt16.ofNat g) (groupBytes ms g)⟩ l' := ⟨rfl, hok⟩
  have hperforms := performed hk haccepts (operatorInstruction_valid.storage _) h.writable.long
    (ofData_insert _ _)
  cases hperforms with
  | insert _ hd₁ hi =>
    rw [hd₁, insertPendingMints_iff (by rw [hgrow.groups, hgrow.count]), hindex] at hi
    have hinside := hi.1.inside
    have hend := group_end hg
    rw [hgrow.groups, groupBytes_length] at hinside
    omega

end

/-- The length of the buffer after `inserts` accepted inserts: it grows with each of them, as it did
with `reinit`. -/
def grownLength (ms : List PendingMint) (len inserts : ℕ) : ℕ :=
  min (72 + 32 * groupCount ms.length + 40 * ms.length) (len + 10240 * (inserts + 1))

theorem reinited_grownLength (hlong : 72 ≤ d.length) (hle : ms.length ≤ 65535) :
    (reinited d (UInt16.ofNat ms.length)).length = grownLength ms d.length 0 := by
  have hnat : (UInt16.ofNat ms.length).toNat = ms.length :=
    UInt16.toNat_ofNat_of_lt' (by omega : ms.length < 2 ^ 16)
  have htarget : calculateTargetSize (UInt16.ofNat ms.length) =
      72 + groupCount ms.length * 32 + ms.length * 40 := by
    rw [← congrArg groupCount hnat, ← congrArg (· * 40) hnat]
    rfl
  have hinc : MAX_PERMITTED_DATA_INCREASE = 10240 := rfl
  rw [reinited_length hlong, htarget, reinitLen, grownLength, hinc]
  split <;> omega

theorem grownLength_succ {len : ℕ} (h : Filling c ms w b done d)
    (hlen : d.length = grownLength ms len done.length) :
    (grown d (Header.getTotalBufferSize (mintBufferHeader d))).length =
      grownLength ms len (done.length + 1) := by
  have hinc : MAX_PERMITTED_DATA_INCREASE = 10240 := rfl
  rw [grown, resized_length, h.total, hinc, hlen, grownLength, grownLength]
  omega

def Sent (c : Crypto) (ms : List PendingMint) (k w b : Pubkey) (len : ℕ) (done : List ℕ)
    (l : Ledger) : Prop :=
  ∃ d, l k = ⟨PENDING_MINT_BUFFER_BUILDER_PROGRAM_ID, d⟩ ∧ Filling c ms w b done d ∧
    d.length = grownLength ms len done.length

/-- A group of a batch is accepted when the groups of the earlier batches are there, whatever came
before it in its own batch. -/
theorem Sent.insert {len : ℕ} {before after : List (List ℕ)} {batch earlier rest : List ℕ}
    (hle : ms.length ≤ 65512) (hpos : 0 < m.groupBatchSize)
    (hroom : 72 + 32 * groupCount ms.length + 40 * min ms.length (24 * m.groupBatchSize) ≤
      len + 20480)
    (hsplit : before ++ batch :: after = divided m.groupBatchSize (groupCount ms.length))
    (hearlier : earlier.Perm before.flatten) (hbatch : (done ++ g :: rest).Perm batch)
    (h : Sent c ms k m.operator b len (earlier ++ done) l) :
    ∃ l', insertPendingMintGroup p c now m PENDING_MINT_BUFFER_BUILDER_PROGRAM_ID k ms g l =
      .ok l' ∧ Sent c ms k m.operator b len (earlier ++ done ++ [g]) l' := by
  obtain ⟨d, hk, hfilling, hlen⟩ := h
  have horder : (earlier ++ done ++ g :: (rest ++ after.flatten)).Perm
      (List.range (groupCount ms.length)) := by
    rw [← divided_flatten (n := groupCount ms.length) hpos, ← hsplit, List.flatten_append,
      List.flatten_cons, List.append_assoc]
    refine hearlier.append ?_
    rw [← List.cons_append, ← List.append_assoc]
    exact hbatch.append_right _
  obtain ⟨hg, hnew, hdone, hsum⟩ := order_next horder
  have hnear := divided_mem hsplit (hbatch.mem_iff.mp (by simp : g ∈ done ++ g :: rest))
  have hcount := hearlier.length_eq
  have hgrown := grownLength_succ hfilling hlen
  have hfits : 72 + 32 * groupCount ms.length + 40 * min ms.length (24 * (g + 1)) ≤
      (grown d (Header.getTotalBufferSize (mintBufferHeader d))).length := by
    rw [hgrown, grownLength, List.length_append]
    omega
  have hgrow := hfilling.grow
  have hsent : insertPendingMintGroup p c now m PENDING_MINT_BUFFER_BUILDER_PROGRAM_ID k ms g l =
      .ok (l.setData k (inserted c (grown d (Header.getTotalBufferSize (mintBufferHeader d))) g
        (groupBytes ms g))) := by
    rw [insertPendingMintGroup, serializeGroup_eq hg]
    refine (operatorInstruction_valid.insert (p := p) hk hfilling.writable ?_).2
    rw [insertPendingMints_iff (by rw [hgrow.groups, hgrow.count]),
      groupIndex_toNat (by omega) hg]
    exact ⟨hgrow.insertable hg hnew hfits, rfl⟩
  refine ⟨_, hsent, _, ?_, hgrow.insert hg hnew hfits hdone (by omega), ?_⟩
  · rw [setData_self, hk]
  · have hnext : (earlier ++ done ++ [g]).length = (earlier ++ done).length + 1 := by
      rw [List.length_append, List.length_singleton]
    rw [inserted_length (hfilling.grow.insertable hg hnew hfits), hgrown, hnext]

theorem Sent.locks {len : ℕ} (h : Sent c ms k w b len done l)
    (hdone : done.Perm (List.range (groupCount ms.length))) : LocksWith p c k ms.length l := by
  obtain ⟨d, hk, hfilling, -⟩ := h
  rw [locksWith_iff hk hfilling.writable, hfilling.init, hfilling.count,
    (hdone.map (groupSize ms.length)).sum_eq]
  exact ⟨sum_groupSize _, rfl⟩

end Inserting

section Creating

variable {l₁ : Ledger}

theorem prepare_panics (hne : ms ≠ []) (hzero : m.groupBatchSize = 0) :
    ∃ e, preparePendingMintBuffer p c now m PENDING_MINT_BUFFER_BUILDER_PROGRAM_ID l locker ms =
      .error e := by
  cases hprepare : preparePendingMintBuffer p c now m PENDING_MINT_BUFFER_BUILDER_PROGRAM_ID l
    locker ms with
  | error e => exact ⟨e, rfl⟩
  | ok r =>
    rw [preparePendingMintBuffer, bind_ok] at hprepare
    obtain ⟨l₁, -, hprepare⟩ := hprepare
    rw [if_neg hne] at hprepare
    simp only [bind_ok, ensure_ok, exists_const] at hprepare
    obtain ⟨l₂, -, hpos, -⟩ := hprepare
    rw [hzero] at hpos
    exact absurd hpos (Nat.lt_irrefl 0)

theorem creates_result (l : Ledger) (ms : List PendingMint) :
    ∃ result, CreatePendingMintBuffer p c now m PENDING_MINT_BUFFER_BUILDER_PROGRAM_ID l locker ms
      result := by
  cases hprepare : preparePendingMintBuffer p c now m PENDING_MINT_BUFFER_BUILDER_PROGRAM_ID l
    locker ms with
  | error e => exact ⟨_, .unprepared hprepare⟩
  | ok r =>
    obtain ⟨result, hsent⟩ := Batches.exists_result r.1 r.2
    exact ⟨result, .inserted hprepare hsent⟩

theorem creates_of_prepared {result : BufferResult Ledger} {batches : List (List ℕ)}
    (hprepare : preparePendingMintBuffer p c now m PENDING_MINT_BUFFER_BUILDER_PROGRAM_ID l locker
      ms = .ok (l₁, batches))
    (h : CreatePendingMintBuffer p c now m PENDING_MINT_BUFFER_BUILDER_PROGRAM_ID l locker ms
      result) :
    Batches (insertPendingMintGroup p c now m PENDING_MINT_BUFFER_BUILDER_PROGRAM_ID
      (derivePendingMintBufferPda p PENDING_MINT_BUFFER_BUILDER_PROGRAM_ID m.operator) ms)
      m.maxRetries l₁ batches result := by
  cases h with
  | unprepared h =>
    rw [hprepare] at h
    cases h
  | inserted h sent =>
    rw [hprepare] at h
    cases h
    exact sent

theorem reinited_sent (hle : ms.length ≤ 65512) (hopened : Opened l l₁ k m.operator b d) :
    Sent c ms k m.operator b d.length [] (l₁.setData k (reinited d (UInt16.ofNat ms.length))) := by
  have hnat : (UInt16.ofNat ms.length).toNat = ms.length :=
    UInt16.toNat_ofNat_of_lt' (by omega : ms.length < 2 ^ 16)
  refine ⟨_, ?_, reinited_filling hopened.writable hnat hle,
    reinited_grownLength hopened.writable.long (by omega)⟩
  rw [setData_self, hopened.account]

section

variable (hpda : k = derivePendingMintBufferPda p PENDING_MINT_BUFFER_BUILDER_PROGRAM_ID m.operator)
  (hexists : ensurePendingMintBufferExists p c now m PENDING_MINT_BUFFER_BUILDER_PROGRAM_ID l k
    locker = .ok l₁)
include hpda hexists

theorem prepare_empty :
    preparePendingMintBuffer p c now m PENDING_MINT_BUFFER_BUILDER_PROGRAM_ID l locker [] =
      .ok (l₁, []) := by
  rw [preparePendingMintBuffer, ← hpda, bind_ok]
  exact ⟨l₁, hexists, rfl⟩

variable (hopened : Opened l l₁ k m.operator b d)
include hopened

theorem prepare_reinit (hne : ms ≠ []) (hpos : 0 < m.groupBatchSize) :
    preparePendingMintBuffer p c now m PENDING_MINT_BUFFER_BUILDER_PROGRAM_ID l locker ms =
      .ok (l₁.setData k (reinited d (UInt16.ofNat ms.length)),
        divided m.groupBatchSize (groupCount ms.length)) := by
  rw [preparePendingMintBuffer, ← hpda, bind_ok]
  refine ⟨l₁, hexists, ?_⟩
  rw [if_neg hne, bind_ok]
  refine ⟨_, (operatorInstruction_valid.reinit (p := p) (c := c) hopened.account hopened.writable
    (UInt16.ofNat ms.length)).2, ?_⟩
  simp only [bind_ok, ensure_ok, exists_const, pure_ok, numGroups_eq]
  exact ⟨hpos, trivial⟩

theorem empty_created_iff :
    CreatesLockable p c now m PENDING_MINT_BUFFER_BUILDER_PROGRAM_ID l locker [] ↔
      countOf d = 0 ∧ initializedOf d = 0 := by
  have hprepare := prepare_empty hpda hexists
  have hlocks : LocksWith p c k 0 l₁ ↔ countOf d = 0 ∧ initializedOf d = 0 := by
    rw [locksWith_iff hopened.account hopened.writable]
    omega
  rw [← hlocks, CreatesLockable, ← hpda]
  constructor
  · rintro ⟨-, hall⟩
    obtain ⟨l', heq, h⟩ := hall (.ok l₁) (.inserted hprepare .done)
    cases heq
    exact h
  · intro h
    refine ⟨creates_result l [], ?_⟩
    intro result hresult
    cases creates_of_prepared hprepare hresult with
    | done => exact ⟨l₁, rfl, h⟩

variable (hne : ms ≠ []) (hpos : 0 < m.groupBatchSize)
include hne hpos

/-- With room for the first batch, every batch is accepted in any order. -/
theorem created_of_room (hle : ms.length ≤ 65512)
    (hroom : 72 + 32 * groupCount ms.length + 40 * min ms.length (24 * m.groupBatchSize) ≤
      d.length + 20480) :
    CreatesLockable p c now m PENDING_MINT_BUFFER_BUILDER_PROGRAM_ID l locker ms := by
  refine ⟨creates_result l ms, ?_⟩
  intro result hresult
  have hsent := creates_of_prepared (prepare_reinit hpda hexists hopened hne hpos) hresult
  rw [← hpda] at hsent ⊢
  have hstep : ∀ before batch after,
      before ++ batch :: after = divided m.groupBatchSize (groupCount ms.length) →
      ∀ earlier done g rest l, earlier.Perm before.flatten → (done ++ g :: rest).Perm batch →
      Sent c ms k m.operator b d.length (earlier ++ done) l →
      ∃ l', insertPendingMintGroup p c now m PENDING_MINT_BUFFER_BUILDER_PROGRAM_ID k ms g l =
          .ok l' ∧ Sent c ms k m.operator b d.length (earlier ++ done ++ [g]) l' := by
    intro before batch after hsplit earlier done g rest l hearlier hbatch h
    exact h.insert hle hpos hroom hsplit hearlier hbatch
  obtain ⟨l', done, hok, hdone, h⟩ := hsent.invariant hstep (List.nil_append _) (List.Perm.refl [])
    (reinited_sent hle hopened)
  rw [divided_flatten hpos] at hdone
  exact ⟨l', hok, h.locks hdone⟩

/-- A group of the first batch that the reinitialized buffer rejects may be tried until the call
fails. -/
theorem created_accepts {g : ℕ} (hg : g < min m.groupBatchSize (groupCount ms.length))
    (h : CreatesLockable p c now m PENDING_MINT_BUFFER_BUILDER_PROGRAM_ID l locker ms) :
    ∃ l', insertPendingMintGroup p c now m PENDING_MINT_BUFFER_BUILDER_PROGRAM_ID k ms g
      (l₁.setData k (reinited d (UInt16.ofNat ms.length))) = .ok l' := by
  cases hinsert : insertPendingMintGroup p c now m PENDING_MINT_BUFFER_BUILDER_PROGRAM_ID k ms g
    (l₁.setData k (reinited d (UInt16.ofNat ms.length))) with
  | ok l' => exact ⟨l', rfl⟩
  | error e =>
    obtain ⟨rest, hdivided⟩ := divided_cons (n := groupCount ms.length) hpos (by omega)
    have hsent : Batches (insertPendingMintGroup p c now m PENDING_MINT_BUFFER_BUILDER_PROGRAM_ID
        (derivePendingMintBufferPda p PENDING_MINT_BUFFER_BUILDER_PROGRAM_ID m.operator) ms)
        m.maxRetries (l₁.setData k (reinited d (UInt16.ofNat ms.length)))
        (divided m.groupBatchSize (groupCount ms.length)) (.error e) := by
      rw [← hpda, hdivided]
      exact .of_rejected (List.mem_range.mpr hg) hinsert
    obtain ⟨l', heq, -⟩ := h.2 _ (.inserted (prepare_reinit hpda hexists hopened hne hpos) hsent)
    cases heq

theorem created_few (hle : ms.length ≤ 65535)
    (h : CreatesLockable p c now m PENDING_MINT_BUFFER_BUILDER_PROGRAM_ID l locker ms) :
    ms.length ≤ 65512 := by
  by_contra hlarge
  have hnat : (UInt16.ofNat ms.length).toNat = ms.length :=
    UInt16.toNat_ofNat_of_lt' (by omega : ms.length < 2 ^ 16)
  have hgroups : 0 < groupCount ms.length := by
    rw [groupCount_pos]
    omega
  have hnone : NoGroups k (l₁.setData k (reinited d (UInt16.ofNat ms.length))) := by
    intro _ _
    rw [setData_self]
    change groupsOf (reinited d (UInt16.ofNat ms.length)) = 0
    rw [groupsOf, reinited_header hopened.writable.long]
    exact reinit_groups_gt (by rw [hnat]; omega)
  obtain ⟨l', hinsert⟩ := created_accepts (g := 0) hpda hexists hopened hne hpos (by omega) h
  rw [insertPendingMintGroup, serializeGroup_eq hgroups] at hinsert
  exact insert_rejected (p := p) operatorInstruction_valid hnone ⟨rfl, hinsert⟩

theorem created_room (hle : ms.length ≤ 65512)
    (h : CreatesLockable p c now m PENDING_MINT_BUFFER_BUILDER_PROGRAM_ID l locker ms) :
    72 + 32 * groupCount ms.length + 40 * min ms.length (24 * m.groupBatchSize) ≤
      d.length + 20480 := by
  have hgroups : 0 < groupCount ms.length := by
    rw [groupCount_pos]
    exact List.length_pos_iff.mpr hne
  have hcover : ms.length ≤ 24 * groupCount ms.length := by
    unfold groupCount
    omega
  have hlast : min m.groupBatchSize (groupCount ms.length) - 1 <
      min m.groupBatchSize (groupCount ms.length) := by omega
  obtain ⟨d₁, hk, hfilling, hlen⟩ := reinited_sent (c := c) hle hopened
  obtain ⟨l', hinsert⟩ := created_accepts hpda hexists hopened hne hpos hlast h
  have hfits := insert_fits hk hfilling (by omega) (by omega) hinsert
  rw [grownLength_succ hfilling hlen, grownLength, List.length_nil] at hfits
  omega

end

/-- The function returns with success and leaves a buffer that can be locked with all the mints,
exactly when the buffer suited the list. -/
theorem mint_buffer_created_iff (bound : ms.length < 65535)
    (prior : Prior (derivePendingMintBufferPda p PENDING_MINT_BUFFER_BUILDER_PROGRAM_ID m.operator)
      m.operator l) :
    CreatesLockable p c now m PENDING_MINT_BUFFER_BUILDER_PROGRAM_ID l locker ms ↔
      Suits m.groupBatchSize ms
        (l (derivePendingMintBufferPda p PENDING_MINT_BUFFER_BUILDER_PROGRAM_ID
          m.operator)).data := by
  generalize hpda : derivePendingMintBufferPda p PENDING_MINT_BUFFER_BUILDER_PROGRAM_ID m.operator =
    k at prior ⊢
  obtain ⟨l₁, b, d, hexists, hopened⟩ : ∃ l₁ b d, ensurePendingMintBufferExists p c now m
    PENDING_MINT_BUFFER_BUILDER_PROGRAM_ID l k locker = .ok l₁ ∧ Opened l l₁ k m.operator b d :=
    prior.exists_opened hpda.symm
  by_cases hempty : ms = []
  · rw [hempty, Suits, if_pos rfl, empty_created_iff hpda.symm hexists hopened]
    exact hopened.counts
  rw [Suits, if_neg hempty, ← hopened.length]
  constructor
  · intro h
    have hpos : 0 < m.groupBatchSize := by
      by_contra hzero
      obtain ⟨e, hpanics⟩ : ∃ e, preparePendingMintBuffer p c now m
        PENDING_MINT_BUFFER_BUILDER_PROGRAM_ID l locker ms = .error e :=
        prepare_panics hempty (by omega)
      obtain ⟨l', heq, -⟩ := h.2 _ (.unprepared hpanics)
      cases heq
    have hle := created_few hpda.symm hexists hopened hempty hpos (by omega) h
    exact ⟨hpos, hle, created_room hpda.symm hexists hopened hempty hpos hle h⟩
  · rintro ⟨hpos, hle, hroom⟩
    exact created_of_room hpda.symm hexists hopened hempty hpos hle hroom

def sampleManager : ParallelBufferManager := ⟨writerKey, 10, 4⟩

theorem sample_pda : bufferKey = derivePendingMintBufferPda samplePlatform
    PENDING_MINT_BUFFER_BUILDER_PROGRAM_ID sampleManager.operator := rfl

theorem three_groups_created : CreatesLockable samplePlatform crypto 0 sampleManager
    PENDING_MINT_BUFFER_BUILDER_PROGRAM_ID unusedLedger lockerKey threeGroups :=
  (mint_buffer_created_iff (by decide) (.absent rfl)).mpr (by
    rw [Suits, if_neg (by decide)]
    exact ⟨by decide, by decide, by decide⟩)

def abortedCalls : List BufferCall :=
  [⟨(pendingMintSetup PENDING_MINT_BUFFER_BUILDER_PROGRAM_ID bufferKey lockerKey
    writerKey).invocation
      0, (pendingMintSetup PENDING_MINT_BUFFER_BUILDER_PROGRAM_ID bufferKey lockerKey
        writerKey).data⟩,
    ⟨(operatorInstruction PENDING_MINT_BUFFER_BUILDER_PROGRAM_ID bufferKey writerKey
      (pendingMintReinit 1)).invocation 0, pendingMintReinit 1⟩]

def abortedLedger : Ledger :=
  preparedLedger.setData bufferKey (reinited (setupBuffer lockerKey writerKey) 1)

theorem abortedLedger_reached :
    Run (Accepts samplePlatform crypto) unusedLedger abortedCalls abortedLedger := by
  have hsetup : Accepts samplePlatform crypto unusedLedger
      ⟨(pendingMintSetup PENDING_MINT_BUFFER_BUILDER_PROGRAM_ID bufferKey lockerKey
        writerKey).invocation 0, (pendingMintSetup PENDING_MINT_BUFFER_BUILDER_PROGRAM_ID bufferKey
        lockerKey writerKey).data⟩ preparedLedger := ⟨rfl, setup_ok sample_pda rfl⟩
  have haccount : preparedLedger bufferKey =
      ⟨PENDING_MINT_BUFFER_BUILDER_PROGRAM_ID, setupBuffer lockerKey writerKey⟩ :=
    Function.update_self ..
  exact (Run.single hsetup).append
    (.single (operatorInstruction_valid.reinit haccount setupBuffer_writable 1))

/-- The empty list after an upload that was broken off, and a list of 521 groups on a new buffer:
its groups need more room than `reinit` and one insert can make. -/
theorem creation_fails :
    (Run (Accepts samplePlatform crypto) unusedLedger abortedCalls abortedLedger ∧
      ¬ CreatesLockable samplePlatform crypto 0 sampleManager
        PENDING_MINT_BUFFER_BUILDER_PROGRAM_ID abortedLedger lockerKey []) ∧
    ¬ CreatesLockable samplePlatform crypto 0 sampleManager
      PENDING_MINT_BUFFER_BUILDER_PROGRAM_ID unusedLedger lockerKey
      (List.replicate 12481 sampleMint) := by
  refine ⟨⟨abortedLedger_reached, ?_⟩, ?_⟩
  · have hcount : countOf (reinited (setupBuffer lockerKey writerKey) 1) = 1 := by
      rw [countOf, reinited_header (by rw [setupBuffer_length])]
      rfl
    have hfilling : Filling crypto [sampleMint] writerKey lockerKey []
        (reinited (setupBuffer lockerKey writerKey) 1) :=
      reinited_filling setupBuffer_writable rfl (by decide)
    have hwritable := hfilling.writable
    have haccount : abortedLedger bufferKey = ⟨PENDING_MINT_BUFFER_BUILDER_PROGRAM_ID,
        reinited (setupBuffer lockerKey writerKey) 1⟩ := by
      rw [abortedLedger, setData_self, preparedLedger, Function.update_self]
    obtain ⟨l₁, b, d, hexists, hopened⟩ : ∃ l₁ b d, ensurePendingMintBufferExists samplePlatform
      crypto 0 sampleManager PENDING_MINT_BUFFER_BUILDER_PROGRAM_ID abortedLedger bufferKey
      lockerKey = .ok l₁ ∧ Opened abortedLedger l₁ bufferKey writerKey b d :=
      Prior.exists_opened (m := sampleManager) sample_pda (.unlocked haccount hwritable)
    rw [empty_created_iff sample_pda hexists hopened, hopened.counts, haccount]
    rintro (hnil | ⟨hzero, -⟩)
    · have hlong := hwritable.long
      rw [show reinited (setupBuffer lockerKey writerKey) 1 = [] from hnil] at hlong
      exact absurd hlong (by decide)
    · rw [hcount] at hzero
      exact absurd hzero (by decide)
  · intro h
    have hlen : (List.replicate 12481 sampleMint).length = 12481 := List.length_replicate
    have hne : List.replicate 12481 sampleMint ≠ [] := by
      intro hnil
      rw [hnil] at hlen
      exact absurd hlen (by decide)
    obtain ⟨l₁, b, d, hexists, hopened⟩ : ∃ l₁ b d, ensurePendingMintBufferExists samplePlatform
      crypto 0 sampleManager PENDING_MINT_BUFFER_BUILDER_PROGRAM_ID unusedLedger bufferKey
      lockerKey = .ok l₁ ∧ Opened unusedLedger l₁ bufferKey writerKey b d :=
      Prior.exists_opened (m := sampleManager) sample_pda (.absent rfl)
    have hroom := created_room sample_pda hexists hopened hne (by decide) (by rw [hlen]; decide) h
    rw [hlen, hopened.length] at hroom
    exact absurd hroom (by decide)

end Creating

end MintBufferCreation
