import PsyDogeBridge.BridgeData

/-! The part of the SPL Token program that the bridge relies on: minting and burning, on the
packed layouts of mints and token accounts. Delegates and multisignatures are left out. -/
namespace SplToken

open PodLayout SolanaRuntime BridgeData

def supply (a : Account) : ℕ := leValue (slice a.data 36 8)

def balance (a : Account) : ℕ := leValue (slice a.data 64 8)

def withSupply (d : Bytes) (n : ℕ) : Bytes := splice d 36 (leBytes 8 n)
def withBalance (d : Bytes) (n : ℕ) : Bytes := splice d 64 (leBytes 8 n)

def IsMint (a : Account) : Prop :=
  a.owner = TOKEN_PROGRAM_ID ∧ a.data.length = 82 ∧ a.data.getD 45 0 = 1

def IsTokenAccount (a : Account) (mint : Pubkey) : Prop :=
  a.owner = TOKEN_PROGRAM_ID ∧ a.data.length = 165 ∧ a.data.getD 108 0 = 1 ∧
    slice a.data 0 32 = mint.toList

instance (a : Account) : Decidable (IsMint a) := inferInstanceAs (Decidable (_ ∧ _))
instance (a : Account) (mint : Pubkey) : Decidable (IsTokenAccount a mint) :=
  inferInstanceAs (Decidable (_ ∧ _))

def settle (l : Ledger) (mint account : Pubkey) (newSupply newBalance : ℕ) : Ledger :=
  (l.setData account (withBalance (l account).data newBalance)).setData mint
    (withSupply (l mint).data newSupply)

def mintTo (l : Ledger) (mint destination authority : AccountInfo) (amount : ℕ) : Option Ledger :=
  if IsMint (l mint.key) ∧ IsTokenAccount (l destination.key) mint.key ∧
      mint.isWritable ∧ destination.isWritable ∧ authority.isSigner ∧
      slice (l mint.key).data 0 36 = [1, 0, 0, 0] ++ authority.key.toList ∧
      supply (l mint.key) + amount < 2 ^ 64 ∧ balance (l destination.key) + amount < 2 ^ 64 then
    some (settle l mint.key destination.key (supply (l mint.key) + amount)
      (balance (l destination.key) + amount))
  else none

def burn (l : Ledger) (source mint authority : AccountInfo) (amount : ℕ) : Option Ledger :=
  if IsMint (l mint.key) ∧ IsTokenAccount (l source.key) mint.key ∧
      mint.isWritable ∧ source.isWritable ∧ authority.isSigner ∧
      slice (l source.key).data 32 32 = authority.key.toList ∧
      amount ≤ supply (l mint.key) ∧ amount ≤ balance (l source.key) then
    some (settle l mint.key source.key (supply (l mint.key) - amount)
      (balance (l source.key) - amount))
  else none

def processInstruction (l : Ledger) (accounts : List AccountInfo) (data : Bytes) : Option Ledger :=
  match data, accounts with
  | tag :: args, [a, b, c] =>
    if args.length ≠ 8 then none
    else if tag = 7 then mintTo l a b c (leValue args)
    else if tag = 8 then burn l a b c (leValue args)
    else none
  | _, _ => none

theorem settle_of_ne {l : Ledger} {mint account k : Pubkey} {m n : ℕ} (hm : k ≠ mint)
    (ha : k ≠ account) : settle l mint account m n k = l k := by
  rw [settle, setData_of_ne hm, setData_of_ne ha]

theorem settle_supply {l : Ledger} {mint account : Pubkey} {m n : ℕ} (hm : IsMint (l mint))
    (hn : m < 2 ^ 64) : supply (settle l mint account m n mint) = m := by
  have hs : slice (withSupply (l mint).data m) 36 8 = leBytes 8 m :=
    slice_splice_self (leBytes_length 8 m) (by rw [hm.2.1]; decide)
  have hv : leValue (leBytes 8 m) = m := by
    rw [leValue_leBytes]
    exact Nat.mod_eq_of_lt hn
  rw [settle, setData_self, supply, hs, hv]

theorem processInstruction_untouched {own : Pubkey → Prop} (hown : ¬ own TOKEN_PROGRAM_ID)
    {l l' : Ledger} {accounts : List AccountInfo} {data : Bytes}
    (h : processInstruction l accounts data = some l') : Untouched own l l' := by
  have settled (mint account : Pubkey) (m n : ℕ) (hm : (l mint).owner = TOKEN_PROGRAM_ID)
      (ha : (l account).owner = TOKEN_PROGRAM_ID) :
        Untouched own l (settle l mint account m n) := by
    constructor
    · intro k hk
      refine settle_of_ne ?_ ?_
      · rintro rfl
        exact hown (hm ▸ hk)
      · rintro rfl
        exact hown (ha ▸ hk)
    · intro k hk hl
      rw [settle, setData_owner, setData_owner] at hk
      exact absurd hk hl
  unfold processInstruction at h
  split at h
  · split at h
    · cases h
    · split at h
      · unfold mintTo at h
        split at h
        · next hc =>
          cases h
          exact settled _ _ _ _ hc.1.1 hc.2.1.1
        · cases h
      · split at h
        · unfold burn at h
          split at h
          · next hc =>
            cases h
            exact settled _ _ _ _ hc.1.1 hc.2.1.1
          · cases h
        · cases h
  · cases h

theorem burn_supply {l l' : Ledger} {source mint authority : AccountInfo} {amount : ℕ}
    (h : burn l source mint authority amount = some l') :
    (l mint.key).owner = TOKEN_PROGRAM_ID ∧
      supply (l' mint.key) + amount = supply (l mint.key) := by
  unfold burn at h
  split at h
  · next hc =>
    cases h
    have hlt : supply (l mint.key) < 2 ^ 64 := by
      have := leValue_lt (slice (l mint.key).data 36 8)
      rwa [slice_length (by rw [hc.1.2.1]; decide)] at this
    refine ⟨hc.1.1, ?_⟩
    rw [settle_supply hc.1 (by omega)]
    exact Nat.sub_add_cancel hc.2.2.2.2.2.2.1
  · cases h

end SplToken
