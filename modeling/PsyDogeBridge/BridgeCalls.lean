import PsyDogeBridge.BlockTransition
import PsyDogeBridge.PendingMintBuffer

/-! The calls that the bridge makes to other programs: minting and burning tokens, locking and
unlocking mint buffers, posting messages. -/
namespace BridgeCalls

open PodLayout CheckedSteps SolanaRuntime BridgeData

structure Features where
  mockZkp : Bool
  wormhole : Bool
  noopshim : Bool
  deriving DecidableEq

structure BridgeEnv where
  platform : Platform
  crypto : Crypto
  features : Features

def BRIDGE_STATE_SEED : Bytes := [98, 114, 105, 100, 103, 101, 95, 115, 116, 97, 116, 101]
def MANUAL_CLAIM_SEED : Bytes := [109, 97, 110, 117, 97, 108, 45, 99, 108, 97, 105, 109]
def TXO_BUFFER_SEED : Bytes := [116, 120, 111, 95, 98, 117, 102, 102, 101, 114]

def BridgeEnv.bridgePda (env : BridgeEnv) (programId : Pubkey) : Pubkey :=
  (env.platform.findProgramAddress [BRIDGE_STATE_SEED] programId).1

/-- What an accepted instruction did to the outside: the calls it made, in order. A call that
mints a record of a mint buffer also says where the record was read. -/
inductive Effect where
  | call (c : Cpi)
  | mintRecord (offset : ℕ) (record : PendingMint) (c : Cpi)
  deriving DecidableEq

def Effect.cpi : Effect → Cpi
  | .call c => c
  | .mintRecord _ _ c => c

def noopShim (p : Platform) (accounts : List AccountInfo) : Except (Failure Empty) Unit := do
  let (_bridgeConfig, accounts) ← nextAccountInfo accounts
  let (_message, accounts) ← nextAccountInfo accounts
  let (emitter, accounts) ← nextAccountInfo accounts
  let (_sequence, accounts) ← nextAccountInfo accounts
  let (payer, _) ← nextAccountInfo accounts
  ensure (emitter.isSigner = true) (.program .missingRequiredSignature)
  ensure (payer.isSigner = true) (.program .missingRequiredSignature)
  ensure (emitter.key = (p.findProgramAddress [BRIDGE_STATE_SEED] DOGE_BRIDGE_PROGRAM_ID).1)
    (.program .invalidAccountData)

/-- The mint buffer program and the shim are the ones of this repository. The only call whose
target the caller of the bridge chooses carries a message that the bridge itself does not
accept. -/
def callee (env : BridgeEnv) (inv : Invocation) (c : Cpi) (l : Ledger) : Option Ledger :=
  if c.programId = PENDING_MINT_BUFFER_BUILDER_PROGRAM_ID then
    (PendingMintBuffer.processInstruction env.platform env.crypto
      { inv with programId := c.programId, accounts := c.accounts } l c.data).toOption
  else if c.programId = NOOP_SHIM_PROGRAM_ID then
    (noopShim env.platform c.accounts).toOption.map fun _ => l
  else if c.programId = inv.programId then none
  else env.platform.foreign c.programId l c.accounts c.data

section Calls

variable (env : BridgeEnv) (inv : Invocation)

def mintToCall (mint recipient authority : AccountInfo) (amount : UInt64) : Cpi where
  programId := TOKEN_PROGRAM_ID
  accounts := [⟨mint.key, false, true⟩, ⟨recipient.key, false, true⟩, ⟨authority.key, true, false⟩]
  data := 7 :: Pod.u64.encode amount
  signer := some (env.bridgePda inv.programId)

def mintTo (b : Borrows) (mint authority : AccountInfo) (recipientMap : List AccountInfo)
    (indexInMintGroup : ℕ) (account : Vector UInt8 32) (amount : UInt64) (l : Ledger) :
    QDogeResult (Ledger × Cpi) := do
  let recipient ← orFail recipientMap[indexInMintGroup]? (coreError .accountMismatch)
  ensure (recipient.key = account) (coreError .accountMismatch)
  let c := mintToCall env inv mint recipient authority amount
  let l ← relabel (inv.invoke (ε := Empty) env.platform b c (callee env inv) l)
    (coreError .cpiTokenMintToCallError)
  pure (l, c)

def burnCall (userTokenAccount mint authority : AccountInfo) (amount : UInt64) : Cpi where
  programId := TOKEN_PROGRAM_ID
  accounts :=
    [⟨userTokenAccount.key, false, true⟩, ⟨mint.key, false, true⟩, ⟨authority.key, true, false⟩]
  data := 8 :: Pod.u64.encode amount
  signer := none

def burnFrom (b : Borrows) (mint userTokenAccount authority : AccountInfo) (amount : UInt64)
    (l : Ledger) : QDogeResult (Ledger × Cpi) := do
  let c := burnCall userTokenAccount mint authority amount
  let l ← relabel (inv.invoke (ε := Empty) env.platform b c (callee env inv) l)
    (coreError .cpiTokenBurnCallError)
  pure (l, c)

/-- The two calls of `SolanaMintBufferLocker`; `tag` is 4 to lock and 5 to unlock. -/
def lockerCall (tag : UInt8) (buffer authority : AccountInfo) : Cpi where
  programId := PENDING_MINT_BUFFER_BUILDER_PROGRAM_ID
  accounts := [⟨buffer.key, false, true⟩, ⟨authority.key, true, false⟩]
  data := [tag]
  signer := some (env.bridgePda inv.programId)

def lockerInvoke (tag : UInt8) (e : DogeBridgeError) (buffer authority : AccountInfo)
    (l : Ledger) : QDogeResult (Ledger × Cpi) := do
  let c := lockerCall env inv tag buffer authority
  let l ← relabel (inv.invoke (ε := Empty) env.platform .none c (callee env inv) l) (coreError e)
  pure (l, c)

/-- The `mints_count` records from `startOffset` on, minted in order to the accounts of
`recipientMap`. The buffer stays borrowed, so what is read does not change meanwhile. -/
def mintRecords (b : Borrows) (mint authority : AccountInfo) (recipientMap : List AccountInfo)
    (mem : Bytes) (startOffset : ℕ) : ℕ → ℕ → Ledger → QDogeResult (Ledger × List Effect)
  | 0, _, l => .ok (l, [])
  | remaining + 1, p, l => do
    let offset := startOffset + p * PM_DA_PENDING_MINT_SIZE
    ensure (offset + PM_DA_PENDING_MINT_SIZE ≤ mem.length) .panic
    let record := PendingMint.pod.decode (slice mem offset PM_DA_PENDING_MINT_SIZE)
    let (l, c) ← mintTo env inv b mint authority recipientMap p record.recipient record.amount l
    let (l, effects) ← mintRecords b mint authority recipientMap mem startOffset remaining (p + 1) l
    pure (l, .mintRecord offset record c :: effects)

def WORMHOLE_VAA_DISCRIMINATOR : Bytes := [214, 50, 100, 209, 38, 34, 7, 76]

structure ShimAccounts where
  shimProgram : AccountInfo
  bridgeConfig : AccountInfo
  message : AccountInfo
  sequence : AccountInfo
  payer : AccountInfo
  feeCollector : AccountInfo
  clock : AccountInfo
  systemProgram : AccountInfo
  coreBridgeProgram : AccountInfo
  eventAuthority : AccountInfo

def vaaCall (withdrawalNonce : UInt32) (a : ShimAccounts) (emitter : AccountInfo)
    (sighash transactionBuffer : Bytes) : Cpi where
  programId := a.shimProgram.key
  accounts := [⟨a.bridgeConfig.key, false, true⟩, ⟨a.message.key, false, true⟩,
    ⟨emitter.key, true, false⟩, ⟨a.sequence.key, false, true⟩, ⟨a.payer.key, true, true⟩,
    ⟨a.feeCollector.key, false, true⟩, ⟨a.clock.key, false, false⟩,
    ⟨a.systemProgram.key, false, false⟩, ⟨a.coreBridgeProgram.key, false, false⟩,
    ⟨a.eventAuthority.key, false, false⟩]
  data := WORMHOLE_VAA_DISCRIMINATOR ++ Pod.u32.encode withdrawalNonce ++ [1] ++
    Pod.u32.encode (UInt32.ofNat (sighash.length + transactionBuffer.length)) ++
    sighash ++ transactionBuffer
  signer := some (env.bridgePda inv.programId)

def postIf (feature : Bool) (b : Borrows) (c : Cpi) (l : Ledger) :
    QDogeResult (Ledger × List Effect) :=
  if feature then do
    let l ← inv.invoke env.platform b c (callee env inv) l
    pure (l, [.call c])
  else pure (l, [])

/-- `send_wormhole_vaa`: each of the two features makes the same call. -/
def sendWormholeVaa (b : Borrows) (withdrawalNonce : UInt32) (a : ShimAccounts)
    (emitter : AccountInfo) (sighash transactionBuffer : Bytes) (l : Ledger) :
    QDogeResult (Ledger × List Effect) := do
  let c := vaaCall env inv withdrawalNonce a emitter sighash transactionBuffer
  let (l, first) ← postIf env inv env.features.wormhole b c l
  let (l, second) ← postIf env inv env.features.noopshim b c l
  pure (l, first ++ second)

end Calls

end BridgeCalls
