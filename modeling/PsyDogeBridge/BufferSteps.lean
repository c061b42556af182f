import PsyDogeBridge.PendingMintBuffer

/-! What an accepted instruction of the mint buffer program does: it changes the data of one
account of the program, by one of six operations. -/
namespace BufferSteps

open PodLayout CheckedSteps SolanaRuntime BridgeData PendingMintBuffer

/-- `realloc`, with zeros where the account grows. -/
def resized (d : Bytes) (n : ℕ) : Bytes := d.take n ++ List.replicate (n - d.length) 0

def grown (d : Bytes) (target : ℕ) : Bytes :=
  resized d (d.length + min (target - d.length) MAX_PERMITTED_DATA_INCREASE)

def withHeader (d : Bytes) (h : Header) : Bytes :=
  splice d 0 (PendingMintsBufferStateHeader.pod.encode h)

section Header

variable {h h' : Header} {signer locker writer : Pubkey}

theorem setup_eq_ok : Header.setup h locker writer = .ok h' ↔
    h.authorizedLockerPublicKey = zeroBytes ∧ h' = ⟨locker, writer, 0, 0, 0, 0, 0⟩ := by
  simp only [Header.setup, bind_ok, ensure_ok, exists_const, pure_ok, eq_comm (a := h')]

theorem lock_ok :
    Header.lock h signer = .ok h' ↔ h.isLocked = 0 ∧
      h.pendingMintsInitialized = h.pendingMintsCount ∧ signer = h.authorizedLockerPublicKey ∧
      h' = { h with isLocked := 1 } := by
  simp only [Header.lock, bind_ok, ensure_ok, exists_const, pure_ok, eq_comm (a := h')]

theorem unlock_ok :
    Header.unlock h signer = .ok h' ↔ h.isLocked ≠ 0 ∧ signer = h.authorizedLockerPublicKey ∧
      h' = { h with isLocked := 0, pendingMintGroupsCount := 0, pendingMintsInitialized := 0,
                    pendingMintsCount := 0 } := by
  simp only [Header.unlock, bind_ok, ensure_ok, exists_const, pure_ok, eq_comm (a := h')]

end Header

@[simp] theorem resized_length (d : Bytes) (n : ℕ) : (resized d n).length = n := by
  simp only [resized, List.length_append, List.length_take, List.length_replicate]
  omega

theorem resized_append (h d : Bytes) (n : ℕ) :
    resized (h ++ d) (h.length + n) = h ++ resized d n := by
  rw [resized, resized, List.take_length_add_append, List.length_append, Nat.add_sub_add_left,
    List.append_assoc]

inductive BufferOp where
  | setup (locker writer : Vector UInt8 32)
  | reinit (count : UInt16)
  | resize
  | insert (groupIndex : UInt16) (mintData : Bytes)
  | lock
  | unlock
  deriving DecidableEq

def BufferOp.ofTag : ℕ → Bytes → Option BufferOp
  | 0, rest => some (.setup (hashPod.decode (rest.take 32)) (hashPod.decode (rest.drop 32)))
  | 1, rest => some (.reinit (Pod.u16.decode rest))
  | 2, _ => some .resize
  | 3, rest => some (.insert (Pod.u16.decode (rest.take 2)) (rest.drop 2))
  | 4, _ => some .lock
  | 5, _ => some .unlock
  | _, _ => none

def BufferOp.ofData : Bytes → Option BufferOp
  | [] => none
  | tag :: rest => BufferOp.ofTag tag.toNat rest

inductive Performs (c : Crypto) (signs : Pubkey → Prop) : BufferOp → Bytes → Bytes → Prop where
  | setup {d h' locker writer} (hd : HEADER_SIZE ≤ d.length)
      (hh : Header.setup (mintBufferHeader d) locker writer = .ok h') :
      Performs c signs (.setup locker writer) d (withHeader d h')
  | reinit {d d₁ h' count} (hd : HEADER_SIZE ≤ d.length)
      (hd₁ : d₁ = resized d (reinitLen d.length (calculateTargetSize count)))
      (hh : Header.reinit (mintBufferHeader d₁) count = .ok h') :
      Performs c signs (.reinit count) d (splice (withHeader d₁ h') HEADER_SIZE (List.replicate
        (min (HEADER_SIZE + h'.pendingMintGroupsCount.toNat * 32) d₁.length - HEADER_SIZE) 0))
  | resize {d} (hd : HEADER_SIZE ≤ d.length) (hl : (mintBufferHeader d).isLocked = 0)
      (ht : d.length ≤ Header.getTotalBufferSize (mintBufferHeader d)) :
      Performs c signs .resize d (grown d (Header.getTotalBufferSize (mintBufferHeader d)))
  | insert {d d₁ d' groupIndex mintData} (hd : HEADER_SIZE ≤ d.length)
      (hd₁ : d₁ = grown d (Header.getTotalBufferSize (mintBufferHeader d)))
      (hi : insertPendingMints c d₁ groupIndex mintData = .ok d') :
      Performs c signs (.insert groupIndex mintData) d d'
  | lock {d h'} (k : Pubkey) (hk : signs k) (hd : HEADER_SIZE ≤ d.length)
      (hh : Header.lock (mintBufferHeader d) k = .ok h') :
      Performs c signs .lock d (withHeader d h')
  | unlock {d h'} (k : Pubkey) (hk : signs k) (hd : HEADER_SIZE ≤ d.length)
      (hh : Header.unlock (mintBufferHeader d) k = .ok h') :
      Performs c signs .unlock d (withHeader d h')

/-- An operation that inserts nothing but the given upload. -/
def BufferStep (c : Crypto) (signs : Pubkey → Prop) (upload d d' : Bytes) : Prop :=
  ∃ op, Performs c signs op d d' ∧ ∀ g x, op = .insert g x → x = upload

variable {d d' : Bytes} {n : ℕ}

theorem slice_resized {o k : ℕ} (hn : o + k ≤ n) (hd : o + k ≤ d.length) :
    slice (resized d n) o k = slice d o k := by
  apply List.ext_getElem?
  intro i
  simp only [slice_getElem?, resized]
  split
  · next hi =>
    rw [List.getElem?_append_left (by simp; omega), List.getElem?_take_of_lt (by omega)]
  · rfl

theorem mintBufferHeader_resized (hn : HEADER_SIZE ≤ n)
    (hd : HEADER_SIZE ≤ d.length) : mintBufferHeader (resized d n) = mintBufferHeader d := by
  rw [mintBufferHeader, slice_resized (by simpa using hn) (by simpa using hd), mintBufferHeader]

theorem withHeader_length {h : Header} (hd : HEADER_SIZE ≤ d.length) :
    (withHeader d h).length = d.length :=
  splice_length (by simpa using hd)

theorem mintBufferHeader_withHeader {h : Header} (hd : HEADER_SIZE ≤ d.length) :
    mintBufferHeader (withHeader d h) = h := by
  have hs : slice (withHeader d h) 0 PM_DA_PENDING_MINTS_BUFFER_STATE_HEADER_SIZE =
      PendingMintsBufferStateHeader.pod.encode h :=
    slice_splice_self (by simp) (by simpa using hd)
  rw [mintBufferHeader, hs, Pod.decode_encode]

theorem slice_withHeader {h : Header} {o : ℕ} (hd : HEADER_SIZE ≤ d.length)
    (ho : HEADER_SIZE ≤ o) : slice (withHeader d h) o n = slice d o n :=
  slice_splice_disjoint (by simpa using hd) (.inr (by simpa using ho))

theorem Performs.long {c : Crypto} {signs : Pubkey → Prop} {op : BufferOp}
    (h : Performs c signs op d d') : HEADER_SIZE ≤ d.length := by
  cases h <;> assumption

theorem BufferOp.insert_data {data x : Bytes} {g : UInt16}
    (h : BufferOp.ofData data = some (.insert g x)) : x = data.drop 3 := by
  cases data with
  | nil => cases h
  | cons tag rest =>
    dsimp only [BufferOp.ofData, BufferOp.ofTag] at h
    split at h <;> cases h
    rfl

theorem updateHeader_ok {f : Header → BufferResult Header} :
    updateHeader d f = .ok d' ↔
      HEADER_SIZE ≤ d.length ∧ ∃ h, f (mintBufferHeader d) = .ok h ∧ d' = withHeader d h := by
  simp only [updateHeader, bind_ok, ensure_ok, pure_ok, exists_const, withHeader, eq_comm (a := d')]

structure Writes (inv : Invocation) (l l' : Ledger) (k : Pubkey) (d d' : Bytes) : Prop where
  eq : l' = Function.update l k ⟨inv.programId, d'⟩
  before : l k = ⟨inv.programId, d⟩ ∨
    (l k = ⟨SYSTEM_PROGRAM_ID, []⟩ ∧ d = List.replicate HEADER_SIZE 0)

variable {p : Platform} {c : Crypto} {inv : Invocation} {l l' : Ledger} {k f : Pubkey} {r : Bool}
  {storage : AccountInfo} {accounts : List AccountInfo} {rest : Bytes}

theorem writes_of_writeData (ho : (l k).owner = inv.programId)
    (h : writeData (ε := Empty) inv l k d' = .ok l') : Writes inv l l' k (l k).data d' := by
  obtain ⟨-, rfl⟩ := writeData_ok.mp h
  exact ⟨by simp [Ledger.setData, ho], .inl (by rw [← ho])⟩

theorem Writes.then {l₁ : Ledger} {d₁ : Bytes} (h : Writes inv l l₁ k d d₁)
    (h' : writeData (ε := Empty) inv l₁ k d' = .ok l') : Writes inv l l' k d d' := by
  obtain ⟨-, rfl⟩ := writeData_ok.mp h'
  refine ⟨?_, h.before⟩
  rw [h.eq, Ledger.setData, Function.update_self, Function.update_idem]

theorem writes_refl (ho : (l k).owner = inv.programId) :
    Writes inv l l k (l k).data (l k).data := by
  have hk : l k = ⟨inv.programId, (l k).data⟩ := by rw [← ho]
  exact ⟨by rw [← hk, Function.update_eq_self], .inl hk⟩

theorem Writes.data (h : Writes inv l l' k d d') : l' k = ⟨inv.programId, d'⟩ := by
  rw [h.eq, Function.update_self]

theorem settleRent_ok {old new : ℕ} (hsystem : inv.lists SYSTEM_PROGRAM_ID)
    (hfunds : inv.fundsSuffice = true) (hsigns : inv.signs f) (hpays : inv.writes f) :
    settleRent inv f old new r = .ok () := by
  unfold settleRent
  split
  · simp only [bind_ok, ensure_ok, exists_const]
    exact ⟨hsystem, hfunds, hsigns, hpays⟩
  · rw [ensure_ok]
    intro _ _
    exact hpays

theorem reallocAccount_ok (ho : (l k).owner = inv.programId)
    (hwrites : inv.writes k) (hsystem : inv.lists SYSTEM_PROGRAM_ID)
    (hfunds : inv.fundsSuffice = true) (hsigns : inv.signs f) (hpays : inv.writes f)
    (hn : n ≤ MAX_PERMITTED_DATA_LENGTH) :
    reallocAccount inv l k f n r = .ok (l.setData k (resized (l k).data n)) := by
  simp only [reallocAccount, bind_ok, ensure_ok, exists_const]
  exact ⟨(), settleRent_ok hsystem hfunds hsigns hpays, hn,
    writeData_ok.mpr ⟨.inr ⟨ho, hwrites⟩, rfl⟩⟩

theorem reallocAccount_writes (ho : (l k).owner = inv.programId)
    (h : reallocAccount inv l k f n r = .ok l') :
    Writes inv l l' k (l k).data (resized (l k).data n) := by
  simp only [reallocAccount, bind_ok, ensure_ok, exists_const] at h
  obtain ⟨-, -, -, hw⟩ := h
  exact writes_of_writeData ho hw

theorem resized_self (d : Bytes) : resized d d.length = d := by simp [resized]

theorem grown_of_le {target : ℕ} (h : target ≤ d.length) : grown d target = d := by
  simp [grown, Nat.sub_eq_zero_of_le h, resized_self]

theorem reallocIfChanged_writes (ho : (l k).owner = inv.programId)
    (h : reallocIfChanged inv l k f n = .ok l') :
    Writes inv l l' k (l k).data (resized (l k).data n) := by
  unfold reallocIfChanged at h
  split at h
  · exact reallocAccount_writes ho h
  · next he =>
    rw [pure_ok] at h
    subst h
    rw [not_not.mp he, resized_self]
    exact writes_refl ho

theorem growTowards_writes (ho : (l k).owner = inv.programId)
    (h : growTowards inv l k f n r = .ok l') :
    Writes inv l l' k (l k).data (grown (l k).data n) := by
  simp only [growTowards] at h
  split at h
  · exact reallocAccount_writes ho h
  · next he =>
    rw [pure_ok] at h
    subst h
    rw [grown_of_le (Nat.le_of_not_lt he)]
    exact writes_refl ho

def Effect (c : Crypto) (inv : Invocation) (upload : Bytes) (l l' : Ledger) (k : Pubkey) : Prop :=
  ∃ d d', Writes inv l l' k d d' ∧ BufferStep c inv.signs upload d d'

def Operates (c : Crypto) (inv : Invocation) (op : BufferOp) (l l' : Ledger) (k : Pubkey) : Prop :=
  ∃ d d', Writes inv l l' k d d' ∧ Performs c inv.signs op d d'

theorem allocateIfEmpty_writes (h : allocateIfEmpty inv l k = .ok l')
    (ho : (l' k).owner = inv.programId) : ∃ d, Writes inv l l' k d d := by
  unfold allocateIfEmpty at h
  split at h
  · simp only [bind_ok, ensure_ok, exists_const] at h
    obtain ⟨-, -, -, ⟨hsystem, hd⟩, rfl⟩ := createDerived_ok.mp h.2
    exact ⟨_, rfl, .inr ⟨by rw [← hsystem, ← hd], rfl⟩⟩
  · rw [pure_ok] at h
    subst h
    exact ⟨_, writes_refl ho⟩

theorem processSetup_performs (h : processSetup p inv l storage rest = .ok l') :
    Operates c inv (.setup (hashPod.decode (rest.take 32)) (hashPod.decode (rest.drop 32))) l l'
      storage.key := by
  simp only [processSetup, bind_ok, ensure_ok, exists_const] at h
  obtain ⟨-, -, l₁, hl₁, ho, -, d', hd', hw⟩ := h
  obtain ⟨d, ha⟩ := allocateIfEmpty_writes hl₁ ho
  obtain ⟨hd, h', hh, rfl⟩ := updateHeader_ok.mp hd'
  rw [ha.data] at hd hh hw
  exact ⟨_, _, ha.then hw, .setup hd hh⟩

theorem writerAccess_ok {payer : AccountInfo}
    (h : writerAccess inv l storage accounts = .ok payer) :
    (l storage.key).owner = inv.programId ∧ HEADER_SIZE ≤ (l storage.key).data.length ∧
      (mintBufferHeader (l storage.key).data).authorizedWriterPublicKey = payer.key := by
  simp only [writerAccess, requireSigner, verifyWriter, bind_ok, ensure_ok, exists_const, pure_ok,
    Prod.exists] at h
  obtain ⟨ho, payer', -, -, -, -, -, -, ⟨hd, hw⟩, rfl⟩ := h
  exact ⟨ho, hd, hw⟩

theorem processReinit_performs (h : processReinit inv l storage accounts rest = .ok l') :
    Operates c inv (.reinit (Pod.u16.decode rest)) l l' storage.key := by
  simp only [processReinit, bind_ok, ensure_ok, exists_const] at h
  obtain ⟨payer, ha, -, l₁, hl₁, -, d₂, hd₂, hw⟩ := h
  obtain ⟨ho, hd, -⟩ := writerAccess_ok ha
  have hr := reallocIfChanged_writes ho hl₁
  obtain ⟨hd₁, h', hh, rfl⟩ := updateHeader_ok.mp hd₂
  rw [hr.data] at hd₁ hh hw
  rw [mintBufferHeader_withHeader hd₁, withHeader_length hd₁] at hw
  exact ⟨_, _, hr.then hw, .reinit hd rfl hh⟩

theorem processResize_performs (h : processResize inv l storage accounts = .ok l') :
    Operates c inv .resize l l' storage.key := by
  simp only [processResize, bind_ok, ensure_ok, exists_const] at h
  obtain ⟨payer, ha, hl, ht, h⟩ := h
  obtain ⟨ho, hd, -⟩ := writerAccess_ok ha
  exact ⟨_, _, growTowards_writes ho h, .resize hd hl ht⟩

theorem processInsert_performs
    (h : processInsert c inv l storage accounts rest = .ok l') :
    Operates c inv (.insert (Pod.u16.decode (rest.take 2)) (rest.drop 2)) l l' storage.key := by
  simp only [processInsert, bind_ok, ensure_ok, exists_const] at h
  obtain ⟨payer, ha, -, l₁, hl₁, d', hi, hw⟩ := h
  obtain ⟨ho, hd, -⟩ := writerAccess_ok ha
  have hg := growTowards_writes ho hl₁
  rw [hg.data] at hi
  exact ⟨_, _, hg.then hw, .insert hd rfl hi⟩

theorem lockerUpdate_ok {f : Header → Vector UInt8 32 → BufferResult Header} :
    lockerUpdate inv l storage accounts f = .ok l' ↔
      (l storage.key).owner = inv.programId ∧ ∃ signer rest, accounts = signer :: rest ∧
      signer.isSigner = true ∧ HEADER_SIZE ≤ (l storage.key).data.length ∧
      ∃ h, f (mintBufferHeader (l storage.key).data) signer.key = .ok h ∧
      writeData (ε := Empty) inv l storage.key (withHeader (l storage.key).data h) = .ok l' := by
  simp only [lockerUpdate, requireSigner, bind_ok, ensure_ok, exists_const, Prod.exists,
    nextAccountInfo_ok, updateHeader_ok]
  constructor
  · rintro ⟨ho, s, r, ha, hs, d, ⟨hd, h, hh, rfl⟩, hw⟩
    exact ⟨ho, s, r, ha, hs, hd, h, hh, hw⟩
  · rintro ⟨ho, s, r, ha, hs, hd, h, hh, hw⟩
    exact ⟨ho, s, r, ha, hs, _, ⟨hd, h, hh, rfl⟩, hw⟩

theorem lockerUpdate_performs {f : Header → Vector UInt8 32 → BufferResult Header} {op : BufferOp}
    (ha : inv.accounts = storage :: accounts)
    (hop : ∀ {d h' k}, inv.signs k → HEADER_SIZE ≤ d.length → f (mintBufferHeader d) k = .ok h' →
      Performs c inv.signs op d (withHeader d h'))
    (h : lockerUpdate inv l storage accounts f = .ok l') : Operates c inv op l l' storage.key := by
  obtain ⟨ho, s, r, hr, hs, hd, h', hh, hw⟩ := lockerUpdate_ok.mp h
  have hm : inv.signs s.key := ⟨s, by rw [ha, hr]; simp, rfl, hs⟩
  exact ⟨_, _, writes_of_writeData ho hw, hop hm hd hh⟩

theorem processInstruction_performs {data : Bytes}
    (h : processInstruction p c inv l data = .ok l') :
    ∃ storage rest op, inv.accounts = storage :: rest ∧ BufferOp.ofData data = some op ∧
      Operates c inv op l l' storage.key := by
  cases data with
  | nil => simp [processInstruction] at h
  | cons tag args =>
    simp only [processInstruction, bind_ok, Prod.exists, nextAccountInfo_ok] at h
    obtain ⟨storage, rest, ha, h⟩ := h
    refine ⟨storage, rest, ?_⟩
    split at h
    · next htag => exact ⟨_, ha, congrArg (BufferOp.ofTag · args) htag, processSetup_performs h⟩
    · next htag => exact ⟨_, ha, congrArg (BufferOp.ofTag · args) htag, processReinit_performs h⟩
    · next htag => exact ⟨_, ha, congrArg (BufferOp.ofTag · args) htag, processResize_performs h⟩
    · next htag => exact ⟨_, ha, congrArg (BufferOp.ofTag · args) htag, processInsert_performs h⟩
    · next htag =>
      exact ⟨_, ha, congrArg (BufferOp.ofTag · args) htag, lockerUpdate_performs ha (.lock _) h⟩
    · next htag =>
      exact ⟨_, ha, congrArg (BufferOp.ofTag · args) htag, lockerUpdate_performs ha (.unlock _) h⟩
    · cases h

theorem processInstruction_effect {data : Bytes}
    (h : processInstruction p c inv l data = .ok l') :
    ∃ storage rest, inv.accounts = storage :: rest ∧
      Effect c inv (data.drop 3) l l' storage.key := by
  obtain ⟨storage, rest, op, ha, hop, d, d', hw, hperforms⟩ := processInstruction_performs h
  refine ⟨storage, rest, ha, d, d', hw, op, hperforms, ?_⟩
  intro g x hx
  rw [hx] at hop
  exact BufferOp.insert_data hop

end BufferSteps
