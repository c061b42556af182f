import PsyDogeBridge.CheckedSteps
import PsyDogeBridge.PodLayout

/-! Accounts, privileges and cross-program calls of the Solana runtime.
An account is its owner and its data; lamports are left out. A program may change the data of
an account only if it owns it and the account is writable in the instruction, and a call to
another program can pass on no more signatures and write access than the caller holds, except
for the caller's own derived addresses. -/
namespace SolanaRuntime

open PodLayout CheckedSteps

abbrev Pubkey := Vector UInt8 32

structure Account where
  owner : Pubkey
  data : Bytes
  deriving DecidableEq

abbrev Ledger := Pubkey → Account

def MAX_PERMITTED_DATA_LENGTH : ℕ := 10 * 1024 * 1024

def Ledger.setData (l : Ledger) (k : Pubkey) (d : Bytes) : Ledger :=
  Function.update l k { l k with data := d }

@[simp] theorem setData_owner (l : Ledger) (k k' : Pubkey) (d : Bytes) :
    (l.setData k d k').owner = (l k').owner := by
  by_cases h : k' = k
  · subst h; simp [Ledger.setData]
  · simp [Ledger.setData, Function.update_of_ne h]

@[simp] theorem setData_self (l : Ledger) (k : Pubkey) (d : Bytes) :
    l.setData k d k = { l k with data := d } := Function.update_self ..

variable {l l' m : Ledger} {k : Pubkey} {d : Bytes} {inv : Invocation} {own : Pubkey → Prop}

theorem setData_of_ne {k' : Pubkey} (h : k' ≠ k) :
    l.setData k d k' = l k' := Function.update_of_ne h ..

theorem setData_setData (l : Ledger) (k : Pubkey) (d d' : Bytes) :
    (l.setData k d).setData k d' = l.setData k d' := by
  rw [Ledger.setData, setData_self, Ledger.setData, Function.update_idem]
  rfl

theorem setData_data_self (l : Ledger) (k : Pubkey) : l.setData k (l k).data = l :=
  Function.update_eq_self k l

/-- An account as an instruction lists it. -/
structure AccountInfo where
  key : Pubkey
  isSigner : Bool
  isWritable : Bool
  deriving DecidableEq

inductive ProgramError where
  | notEnoughAccountKeys
  | missingRequiredSignature
  | invalidSeeds
  | illegalOwner
  | incorrectProgramId
  | invalidInstructionData
  | invalidArgument
  | invalidAccountData
  | accountAlreadyInitialized
  | accountDataTooSmall
  | uninitializedAccount
  | invalidRealloc
  | insufficientFunds
  | externalAccountDataModified
  | accountBorrowFailed
  | missingAccount
  | privilegeEscalation
  | calleeFailed
  deriving DecidableEq, Repr

/-- Why an instruction fails. A panic aborts it like an error, but no check returned it. -/
inductive Failure (ε : Type) where
  | program (e : ProgramError)
  | custom (e : ε)
  | panic
  deriving DecidableEq, Repr

structure Invocation where
  programId : Pubkey
  accounts : List AccountInfo
  unixTimestamp : ℤ
  fundsSuffice : Bool

variable {ε : Type}

def Invocation.signs (inv : Invocation) (k : Pubkey) : Prop :=
  ∃ a ∈ inv.accounts, a.key = k ∧ a.isSigner

def Invocation.writes (inv : Invocation) (k : Pubkey) : Prop :=
  ∃ a ∈ inv.accounts, a.key = k ∧ a.isWritable

def Invocation.lists (inv : Invocation) (k : Pubkey) : Prop :=
  ∃ a ∈ inv.accounts, a.key = k

instance (inv : Invocation) (k : Pubkey) : Decidable (inv.signs k) :=
  inferInstanceAs (Decidable (∃ a ∈ inv.accounts, a.key = k ∧ a.isSigner))
instance (inv : Invocation) (k : Pubkey) : Decidable (inv.writes k) :=
  inferInstanceAs (Decidable (∃ a ∈ inv.accounts, a.key = k ∧ a.isWritable))
instance (inv : Invocation) (k : Pubkey) : Decidable (inv.lists k) :=
  inferInstanceAs (Decidable (∃ a ∈ inv.accounts, a.key = k))

/-- The runtime rejects an instruction that leaves other data in an account which its program
does not own or which it lists as read-only. -/
def writeData (inv : Invocation) (l : Ledger) (k : Pubkey) (d : Bytes) :
    Except (Failure ε) Ledger := do
  ensure ((l k).data = d ∨ (l k).owner = inv.programId ∧ inv.writes k)
    (.program .externalAccountDataModified)
  pure (l.setData k d)

theorem writeData_ok :
    writeData (ε := ε) inv l k d = .ok l' ↔
      ((l k).data = d ∨ (l k).owner = inv.programId ∧ inv.writes k) ∧ l' = l.setData k d := by
  simp only [writeData, bind_ok, ensure_ok, pure_ok, exists_const, eq_comm (a := l')]

/-- A cross-program call; `signer` is the derived address whose seeds the caller supplies. -/
structure Cpi where
  programId : Pubkey
  accounts : List AccountInfo
  data : Bytes
  signer : Option Pubkey
  deriving DecidableEq

def Invocation.grants (inv : Invocation) (c : Cpi) (m : AccountInfo) : Prop :=
  inv.lists m.key ∧ (m.isSigner → inv.signs m.key ∨ c.signer = some m.key) ∧
    (m.isWritable → inv.writes m.key)

instance (inv : Invocation) (c : Cpi) (m : AccountInfo) : Decidable (inv.grants c m) :=
  inferInstanceAs (Decidable (_ ∧ (_ → _) ∧ (_ → _)))

def SYSTEM_PROGRAM_ID : Pubkey := Vector.replicate 32 0

/-- What the system program does for a derived address of the caller: an unused account gets
`space` zero bytes and the caller as its owner. -/
def createDerived (inv : Invocation) (l : Ledger) (k : Pubkey) (space : ℕ) :
    Except (Failure ε) Ledger := do
  ensure (inv.lists SYSTEM_PROGRAM_ID) (.program .missingAccount)
  ensure (inv.writes k) (.program .privilegeEscalation)
  ensure (inv.fundsSuffice = true) (.program .calleeFailed)
  ensure ((l k).owner = SYSTEM_PROGRAM_ID ∧ (l k).data = []) (.program .calleeFailed)
  pure (Function.update l k ⟨inv.programId, List.replicate space 0⟩)

theorem createDerived_ok {space : ℕ} :
    createDerived (ε := ε) inv l k space = .ok l' ↔
      inv.lists SYSTEM_PROGRAM_ID ∧ inv.writes k ∧ inv.fundsSuffice = true ∧
      ((l k).owner = SYSTEM_PROGRAM_ID ∧ (l k).data = []) ∧
      l' = Function.update l k ⟨inv.programId, List.replicate space 0⟩ := by
  simp only [createDerived, bind_ok, ensure_ok, pure_ok, exists_const, eq_comm (a := l')]

def nextAccountInfo (accounts : List AccountInfo) :
    Except (Failure ε) (AccountInfo × List AccountInfo) :=
  match accounts with
  | [] => .error (.program .notEnoughAccountKeys)
  | a :: rest => .ok (a, rest)

@[simp] theorem nextAccountInfo_ok {accounts : List AccountInfo}
    {r : AccountInfo × List AccountInfo} :
    nextAccountInfo (ε := ε) accounts = .ok r ↔ accounts = r.1 :: r.2 := by
  cases accounts with
  | nil => simp [nextAccountInfo]
  | cons a as => simp [nextAccountInfo, Prod.ext_iff, eq_comm]

/-- What lies outside the modelled programs. `foreign` is the behaviour of every other
deployed program, and `checksBorrows` says whether the calling convention refuses an account
whose data the caller holds mutably borrowed. -/
structure Platform where
  findProgramAddress : List Bytes → Pubkey → Pubkey × UInt8
  createProgramAddress : List Bytes → Pubkey → Option Pubkey
  foreign : Pubkey → Ledger → List AccountInfo → Bytes → Option Ledger
  checksBorrows : Bool

/-- The accounts whose data the caller holds while it calls another program: those borrowed
mutably may not be passed on, those borrowed to read only as read-only accounts. -/
structure Borrows where
  held : List Pubkey
  shared : List Pubkey

def Borrows.none : Borrows := ⟨[], []⟩

def Borrows.permit (b : Borrows) (m : AccountInfo) : Prop :=
  m.key ∉ b.held ∧ (m.isWritable → m.key ∉ b.shared)

instance (b : Borrows) (m : AccountInfo) : Decidable (b.permit m) :=
  inferInstanceAs (Decidable (_ ∧ (_ → _)))

def Invocation.invoke (inv : Invocation) (p : Platform) (b : Borrows) (c : Cpi)
    (callee : Cpi → Ledger → Option Ledger) (l : Ledger) :
    Except (Failure ε) Ledger := do
  ensure (p.checksBorrows → ∀ m ∈ c.accounts, b.permit m) (.program .accountBorrowFailed)
  ensure (inv.lists c.programId) (.program .missingAccount)
  ensure (∀ m ∈ c.accounts, inv.grants c m) (.program .privilegeEscalation)
  orFail (callee c l) (.program .calleeFailed)

theorem invoke_ok {p : Platform} {b : Borrows} {c : Cpi} {callee : Cpi → Ledger → Option Ledger} :
    inv.invoke (ε := ε) p b c callee l = .ok l' ↔
      (p.checksBorrows → ∀ m ∈ c.accounts, b.permit m) ∧ inv.lists c.programId ∧
      (∀ m ∈ c.accounts, inv.grants c m) ∧ callee c l = some l' := by
  simp [Invocation.invoke]

/-- What everyone else may do to the accounts of the programs in `own`: leave them alone, or
hand over a new account, which then holds only zero bytes. -/
structure Untouched (own : Pubkey → Prop) (l l' : Ledger) : Prop where
  kept : ∀ k, own (l k).owner → l' k = l k
  fresh : ∀ k, own (l' k).owner → ¬ own (l k).owner → ∀ b ∈ (l' k).data, b = 0

theorem Untouched.refl (own : Pubkey → Prop) (l : Ledger) : Untouched own l l :=
  ⟨fun _ _ => rfl, fun _ h h' => absurd h h'⟩

theorem Untouched.trans {n : Ledger} (h : Untouched own l m) (k : Untouched own m n) :
    Untouched own l n := by
  constructor
  · intro a ha
    have hm := h.kept a ha
    rw [k.kept a (by rwa [hm]), hm]
  · intro a hn hl
    by_cases hm : own (m a).owner
    · rw [k.kept a hm]
      exact h.fresh a hm hl
    · exact k.fresh a hn hm

theorem Untouched.weaken {own' : Pubkey → Prop} (h : Untouched own l m)
    (sub : ∀ p, own' p → own p) : Untouched own' l m := by
  refine ⟨fun k hk => h.kept k (sub _ hk), fun k hm hl => ?_⟩
  by_cases ho : own (l k).owner
  · rw [h.kept k ho] at hm
    exact absurd hm hl
  · exact h.fresh k (sub _ hm) ho

end SolanaRuntime
