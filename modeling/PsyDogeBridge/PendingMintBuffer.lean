import PsyDogeBridge.BridgeData

/-! The pending-mint-buffer program. A buffer is a header, one hash for each group of 24 mints
and the mints themselves. Its writer uploads group by group, in any order; its locker freezes
it, and an unlocked buffer can be filled again. -/
namespace PendingMintBuffer

open PodLayout CheckedSteps SolanaRuntime BridgeData

abbrev BufferResult (α : Type) := Except (Failure Empty) α

abbrev MAX_PENDING_MINTS_PER_GROUP : ℕ := 24
abbrev MAX_PENDING_MINTS_PER_GROUP_U16 : UInt16 := 24
abbrev MAX_PERMITTED_DATA_INCREASE : ℕ := 10240
abbrev PENDING_MINT_SIZE : ℕ := 40
abbrev HEADER_SIZE : ℕ := 72

def MINT_BUFFER_SEED : Bytes := [109, 105, 110, 116, 95, 98, 117, 102, 102, 101, 114]

abbrev Header := PendingMintsBufferStateHeader

namespace Header

def setup (h : Header) (locker writer : Vector UInt8 32) : BufferResult Header := do
  ensure (h.authorizedLockerPublicKey = zeroBytes) (.program .accountAlreadyInitialized)
  pure ⟨locker, writer, 0, 0, 0, 0, 0⟩

/-- The group count is computed in `u16`, so it is zero for the 23 largest counts. -/
def reinit (h : Header) (pendingMintsCount : UInt16) : BufferResult Header := do
  ensure (h.isLocked = 0) (.program .accountAlreadyInitialized)
  pure { h with
    pendingMintsCount := pendingMintsCount
    pendingMintGroupsCount := (pendingMintsCount + MAX_PENDING_MINTS_PER_GROUP_U16 - 1) /
      MAX_PENDING_MINTS_PER_GROUP_U16
    pendingMintsInitialized := 0 }

def lock (h : Header) (locker : Vector UInt8 32) : BufferResult Header := do
  ensure (h.isLocked = 0) (.program .accountAlreadyInitialized)
  ensure (h.pendingMintsInitialized = h.pendingMintsCount) (.program .invalidAccountData)
  ensure (locker = h.authorizedLockerPublicKey) (.program .illegalOwner)
  pure { h with isLocked := 1 }

def unlock (h : Header) (locker : Vector UInt8 32) : BufferResult Header := do
  ensure (h.isLocked ≠ 0) (.program .invalidAccountData)
  ensure (locker = h.authorizedLockerPublicKey) (.program .illegalOwner)
  pure { h with
    isLocked := 0
    pendingMintGroupsCount := 0
    pendingMintsCount := 0
    pendingMintsInitialized := 0 }

def getTotalBufferSize (h : Header) : ℕ :=
  HEADER_SIZE + 32 * h.pendingMintGroupsCount.toNat + h.pendingMintsCount.toNat * PENDING_MINT_SIZE

end Header

def updateHeader (data : Bytes) (f : Header → BufferResult Header) : BufferResult Bytes := do
  ensure (HEADER_SIZE ≤ data.length) .panic
  let h ← f (mintBufferHeader data)
  pure (splice data 0 (PendingMintsBufferStateHeader.pod.encode h))

def calculateTargetSize (pendingMintsCount : UInt16) : ℕ :=
  let groups := (pendingMintsCount.toNat + MAX_PENDING_MINTS_PER_GROUP - 1) /
    MAX_PENDING_MINTS_PER_GROUP
  HEADER_SIZE + groups * 32 + pendingMintsCount.toNat * PENDING_MINT_SIZE

def getNthGroupHashOffset (groupIdx : UInt16) : ℕ := HEADER_SIZE + groupIdx.toNat * 32

def getNthPendingMintOffset (h : Header) (globalMintIdx : UInt16) : ℕ :=
  HEADER_SIZE + h.pendingMintGroupsCount.toNat * 32 + globalMintIdx.toNat * PENDING_MINT_SIZE

def insertPendingMints (c : Crypto) (data : Bytes) (groupIndex : UInt16) (mintData : Bytes) :
    BufferResult Bytes := do
  ensure (HEADER_SIZE ≤ data.length) .panic
  let header := mintBufferHeader data
  ensure (header.isLocked = 0) (.program .accountAlreadyInitialized)
  ensure (groupIndex < header.pendingMintGroupsCount) (.program .invalidArgument)
  ensure (mintData.length ≤ MAX_PENDING_MINTS_PER_GROUP * PENDING_MINT_SIZE)
    (.program .invalidInstructionData)
  ensure (mintData.length % PENDING_MINT_SIZE = 0) (.program .invalidInstructionData)
  let hashOffset := getNthGroupHashOffset groupIndex
  let mintOffset := getNthPendingMintOffset header (groupIndex * MAX_PENDING_MINTS_PER_GROUP_U16)
  ensure (mintOffset + mintData.length ≤ data.length ∧ hashOffset + 32 ≤ data.length)
    (.program .accountDataTooSmall)
  ensure (slice data hashOffset 32 = List.replicate 32 0) (.program .accountAlreadyInitialized)
  let data := splice data hashOffset (c.sha256 mintData).toList
  let data := splice data mintOffset mintData
  let countInc := UInt16.ofNat (mintData.length / PENDING_MINT_SIZE)
  updateHeader data fun h =>
    pure { h with pendingMintsInitialized := h.pendingMintsInitialized + countInc }

/-- Growing is paid for by the funding account, shrinking may refund it. -/
def settleRent (inv : Invocation) (funding : Pubkey) (oldSize newSize : ℕ) (refund : Bool) :
    BufferResult Unit :=
  if oldSize < newSize then do
    ensure (inv.lists SYSTEM_PROGRAM_ID) (.program .missingAccount)
    ensure (inv.fundsSuffice = true ∧ inv.signs funding ∧ inv.writes funding)
      (.program .calleeFailed)
  else ensure (refund = true → newSize < oldSize → inv.writes funding)
    (.program .externalAccountDataModified)

/-- Bytes that become visible are zero. The runtime bounds the length of an account. -/
def reallocAccount (inv : Invocation) (l : Ledger) (target funding : Pubkey) (newSize : ℕ)
    (refund : Bool) : BufferResult Ledger := do
  let data := (l target).data
  settleRent inv funding data.length newSize refund
  ensure (newSize ≤ MAX_PERMITTED_DATA_LENGTH) (.program .invalidRealloc)
  writeData inv l target (data.take newSize ++ List.replicate (newSize - data.length) 0)

section Instructions

variable (p : Platform) (c : Crypto) (inv : Invocation) (l : Ledger) (storage : AccountInfo)
  (accounts : List AccountInfo) (rest : Bytes)

def requireSigner (a : AccountInfo) : BufferResult Unit :=
  ensure (a.isSigner = true) (.program .missingRequiredSignature)

def verifyWriter (signer : AccountInfo) : BufferResult Unit := do
  ensure (HEADER_SIZE ≤ (l storage.key).data.length) (.program .uninitializedAccount)
  ensure ((mintBufferHeader (l storage.key).data).authorizedWriterPublicKey = signer.key)
    (.program .illegalOwner)

def allocateIfEmpty (k : Pubkey) : BufferResult Ledger :=
  if (l k).data.length = 0 then do
    ensure (inv.fundsSuffice = true) (.program .insufficientFunds)
    createDerived inv l k HEADER_SIZE
  else pure l

def processSetup : BufferResult Ledger := do
  ensure (rest.length = 64) (.program .invalidInstructionData)
  let lockerKey := hashPod.decode (rest.take 32)
  let writerKey := hashPod.decode (rest.drop 32)
  let expectedPda := (p.findProgramAddress [MINT_BUFFER_SEED, writerKey.toList] inv.programId).1
  ensure (storage.key = expectedPda) (.program .invalidSeeds)
  let l ← allocateIfEmpty inv l storage.key
  ensure ((l storage.key).owner = inv.programId) (.program .incorrectProgramId)
  ensure (HEADER_SIZE ≤ (l storage.key).data.length) (.program .accountDataTooSmall)
  let data ← updateHeader (l storage.key).data fun h => Header.setup h lockerKey writerKey
  writeData inv l storage.key data

/-- The three instructions of the writer start with the same checks. -/
def writerAccess : BufferResult AccountInfo := do
  ensure ((l storage.key).owner = inv.programId) (.program .incorrectProgramId)
  let (payer, accounts) ← nextAccountInfo accounts
  let _ ← nextAccountInfo accounts
  requireSigner payer
  verifyWriter l storage payer
  pure payer

/-- One step towards a size: at most `MAX_PERMITTED_DATA_INCREASE` more bytes, or all the bytes
that are too many. -/
def reinitLen (currentLen targetSize : ℕ) : ℕ :=
  if targetSize > currentLen then
    currentLen + min (targetSize - currentLen) MAX_PERMITTED_DATA_INCREASE
  else targetSize

def reallocIfChanged (k payer : Pubkey) (newLen : ℕ) : BufferResult Ledger :=
  if newLen ≠ (l k).data.length then reallocAccount inv l k payer newLen true else pure l

def growTowards (k payer : Pubkey) (targetSize : ℕ) (refund : Bool) : BufferResult Ledger :=
  let currentLen := (l k).data.length
  if currentLen < targetSize then
    reallocAccount inv l k payer
      (currentLen + min (targetSize - currentLen) MAX_PERMITTED_DATA_INCREASE) refund
  else pure l

def processReinit : BufferResult Ledger := do
  let payer ← writerAccess inv l storage accounts
  ensure (rest.length = 2) (.program .invalidInstructionData)
  let count := Pod.u16.decode rest
  let newLen := reinitLen (l storage.key).data.length (calculateTargetSize count)
  let l ← reallocIfChanged inv l storage.key payer.key newLen
  ensure (HEADER_SIZE ≤ (l storage.key).data.length) (.program .uninitializedAccount)
  let data ← updateHeader (l storage.key).data fun h => Header.reinit h count
  -- the hashes that are already there are wiped; the others will appear as zeros
  let hashEnd := HEADER_SIZE + (mintBufferHeader data).pendingMintGroupsCount.toNat * 32
  let data := splice data HEADER_SIZE (List.replicate (min hashEnd data.length - HEADER_SIZE) 0)
  writeData inv l storage.key data

def processResize : BufferResult Ledger := do
  let payer ← writerAccess inv l storage accounts
  let h := mintBufferHeader (l storage.key).data
  ensure (h.isLocked = 0) (.program .accountAlreadyInitialized)
  let targetSize := Header.getTotalBufferSize h
  ensure ((l storage.key).data.length ≤ targetSize) (.program .invalidAccountData)
  growTowards inv l storage.key payer.key targetSize true

def processInsert : BufferResult Ledger := do
  let payer ← writerAccess inv l storage accounts
  ensure (2 ≤ rest.length) (.program .invalidInstructionData)
  let groupIndex := Pod.u16.decode (rest.take 2)
  let mintData := rest.drop 2
  let targetSize := Header.getTotalBufferSize (mintBufferHeader (l storage.key).data)
  let l ← growTowards inv l storage.key payer.key targetSize false
  let data ← insertPendingMints c (l storage.key).data groupIndex mintData
  writeData inv l storage.key data

/-- Locking and unlocking: the second account signs. -/
def lockerUpdate (f : Header → Vector UInt8 32 → BufferResult Header) : BufferResult Ledger := do
  ensure ((l storage.key).owner = inv.programId) (.program .incorrectProgramId)
  let (signer, _) ← nextAccountInfo accounts
  requireSigner signer
  let data ← updateHeader (l storage.key).data fun h => f h signer.key
  writeData inv l storage.key data

def processLock : BufferResult Ledger :=
  lockerUpdate inv l storage accounts Header.lock

def processUnlock : BufferResult Ledger :=
  lockerUpdate inv l storage accounts Header.unlock

def processInstruction (instructionData : Bytes) : BufferResult Ledger :=
  match instructionData with
  | [] => .error (.program .invalidInstructionData)
  | tag :: rest => do
    let (storage, accounts) ← nextAccountInfo inv.accounts
    match tag.toNat with
    | 0 => processSetup p inv l storage rest
    | 1 => processReinit inv l storage accounts rest
    | 2 => processResize inv l storage accounts
    | 3 => processInsert c inv l storage accounts rest
    | 4 => processLock inv l storage accounts
    | 5 => processUnlock inv l storage accounts
    | _ => .error (.program .invalidInstructionData)

end Instructions

end PendingMintBuffer
