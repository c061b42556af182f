import PsyDogeBridge.HistorySync
import PsyDogeBridge.ManualClaimClient

/-! The withdrawal request that the client builds, and what the monitor and the history client read
from it: the arguments come back, but the user that they name is the account of the bridge. -/
namespace RequestDecoding

open PodLayout SolanaRuntime BridgeData BridgeCalls BridgeProcessor AcceptedInstructions
  InstructionCodec ClientRpc BridgeMonitor
open ManualClaimClient (Instruction)

variable {p : Platform} {programId userAuthority mint userTokenAccount : Pubkey}
  {recipientAddress : Vector UInt8 20} {amountSats : UInt64} {addressType : UInt32}

def bridgeStateOf (p : Platform) (programId : Pubkey) : Pubkey :=
  (p.findProgramAddress [BRIDGE_STATE_SEED] programId).1

def requestWithdrawal (p : Platform) (programId userAuthority mint userTokenAccount : Pubkey)
    (recipientAddress : Vector UInt8 20) (amountSats : UInt64) (addressType : UInt32) :
    Instruction where
  programId := programId
  accounts :=
    [⟨bridgeStateOf p programId, false, true⟩, ⟨userTokenAccount, false, true⟩,
      ⟨mint, false, true⟩, ⟨userAuthority, true, false⟩, ⟨TOKEN_PROGRAM_ID, false, false⟩]
  data := genAlignedInstruction 2
    (PsyWithdrawalRequest.pod.encode ⟨amountSats, addressType, recipientAddress⟩)

structure CompiledAs (keys : List Pubkey) (ix : Instruction) (compiled : CompiledInstruction) :
    Prop where
  program : keys[compiled.programIdIndex.toNat]? = some ix.programId
  accounts : compiled.accounts.map (fun i => keys[i.toNat]?) = ix.accounts.map fun a => some a.key
  data : compiled.data = ix.data

section Decoders

variable {keys : List Pubkey} {compiled : CompiledInstruction} {signature : Signature}
  {slot : UInt64} {blockTime : Option ℤ}

theorem arguments_built (discriminator : UInt8) (request : PsyWithdrawalRequest) :
    arguments (genAlignedInstruction discriminator (PsyWithdrawalRequest.pod.encode request))
      PsyWithdrawalRequest.pod = some request := by
  have hdrop : (genAlignedInstruction discriminator
      (PsyWithdrawalRequest.pod.encode request)).drop 8 = PsyWithdrawalRequest.pod.encode request :=
    List.drop_left' List.length_replicate
  refine arguments_read ?_ ?_
  · rw [genAlignedInstruction, List.length_append, List.length_replicate]
    exact Nat.le_add_right 8 _
  · rw [hdrop, Pod.read_encode]

theorem firstAccount_compiled {ix : Instruction} {first : AccountInfo} {rest : List AccountInfo}
    (h : CompiledAs keys ix compiled) (haccounts : ix.accounts = first :: rest) :
    firstAccount compiled.accounts keys = first.key := by
  have hmap := h.accounts
  rw [haccounts, List.map_cons] at hmap
  cases hindices : compiled.accounts with
  | nil =>
    rw [hindices] at hmap
    cases hmap
  | cons i is =>
    rw [hindices, List.map_cons, List.cons.injEq] at hmap
    change keys.getD i.toNat zeroBytes = first.key
    rw [List.getD_eq_getElem?_getD, hmap.1, Option.getD_some]

/-- Both decoders read the request from the compiled instruction, as one of this user. -/
def DecodedAs (keys : List Pubkey) (compiled : CompiledInstruction) (signature : Signature)
    (slot : UInt64) (blockTime : Option ℤ) (amountSats : UInt64)
    (recipientAddress : Vector UInt8 20) (addressType : UInt32) (user : Pubkey) : Prop :=
  BridgeMonitor.parseWithdrawalRequest signature slot blockTime compiled.data compiled.accounts
      keys = some (.withdrawalRequested ⟨signature, slot, blockTime, amountSats, recipientAddress,
        addressType, user, 0⟩) ∧
    HistorySync.parseWithdrawalRequest signature slot blockTime keys compiled.data
      compiled.accounts = some (.withdrawalRequest ⟨signature, slot, blockTime, amountSats,
        recipientAddress, addressType, user⟩)

theorem decodedAs_bridge (h : CompiledAs keys (requestWithdrawal p programId userAuthority mint
    userTokenAccount recipientAddress amountSats addressType) compiled) :
    DecodedAs keys compiled signature slot blockTime amountSats recipientAddress addressType
      (bridgeStateOf p programId) := by
  have hfirst : firstAccount compiled.accounts keys = bridgeStateOf p programId :=
    firstAccount_compiled h rfl
  have hdata : compiled.data = genAlignedInstruction 2
      (PsyWithdrawalRequest.pod.encode ⟨amountSats, addressType, recipientAddress⟩) := h.data
  constructor
  · rw [BridgeMonitor.parseWithdrawalRequest, hdata, arguments_built, Option.map_some,
      withdrawalRequested, hfirst]
  · rw [HistorySync.parseWithdrawalRequest, hdata, arguments_built, Option.map_some,
      HistorySync.requestRecord, hfirst]

theorem DecodedAs.unique {user user' : Pubkey}
    (h : DecodedAs keys compiled signature slot blockTime amountSats recipientAddress
      addressType user)
    (h' : DecodedAs keys compiled signature slot blockTime amountSats recipientAddress addressType
      user') : user = user' := by
  have heq := Option.some.inj (h.1.symm.trans h'.1)
  injection heq with heq
  exact congrArg WithdrawalRequestedEvent.userPubkey heq

/-- A request that the client builds burns the tokens of the user authority. The decoders give
back its amount, address and type, but report the account of the bridge as the user, so that
they report the authority exactly if it is that account. -/
theorem request_decoded_iff (keys : List Pubkey) (compiled : CompiledInstruction)
    (hcompiled : CompiledAs keys (requestWithdrawal p programId userAuthority mint userTokenAccount
      recipientAddress amountSats addressType) compiled)
    (signature : Signature) (slot : UInt64) (blockTime : Option ℤ) :
    (∀ (env : BridgeEnv) (now : ℤ) (l l' : Ledger) (es : List Effect),
      processInstruction env ((requestWithdrawal p programId userAuthority mint userTokenAccount
          recipientAddress amountSats addressType).invocation now) l compiled.data = .ok (l', es) →
        es = [.call (burnCall ⟨userTokenAccount, false, true⟩ ⟨mint, false, true⟩
          ⟨userAuthority, true, false⟩ amountSats)]) ∧
      DecodedAs keys compiled signature slot blockTime amountSats recipientAddress addressType
        (bridgeStateOf p programId) ∧
      (DecodedAs keys compiled signature slot blockTime amountSats recipientAddress addressType
        userAuthority ↔ userAuthority = bridgeStateOf p programId) := by
  have hbridge : DecodedAs keys compiled signature slot blockTime amountSats recipientAddress
      addressType (bridgeStateOf p programId) := decodedAs_bridge hcompiled
  refine ⟨?_, hbridge, ?_, ?_⟩
  · intro env now l l' es hok
    rw [hcompiled.data] at hok
    obtain ⟨ix, hix, haccepted⟩ := processInstruction_ok.mp hok
    have hbuilt := unpack_instructionData
      (.requestWithdrawal ⟨amountSats, addressType, recipientAddress⟩)
    obtain rfl := Except.ok.inj (hix.symm.trans hbuilt)
    cases haccepted with
    | requestWithdrawal ha hr hc hw hb =>
      cases ha
      rfl
  · intro h
    exact h.unique hbridge
  · rintro rfl
    exact hbridge

end Decoders

section Sample

open LocalCluster

def requestKeys : List Pubkey :=
  [bridgeState, strangerKey, mintKey, operatorKey, TOKEN_PROGRAM_ID, DOGE_BRIDGE_PROGRAM_ID]

def operatorRequest : Instruction :=
  requestWithdrawal platform DOGE_BRIDGE_PROGRAM_ID operatorKey mintKey strangerKey
    (Vector.replicate 20 9) 50 0

def compiledRequest : CompiledInstruction := ⟨5, [0, 1, 2, 3, 4], operatorRequest.data⟩

theorem platform_bridgeState : bridgeStateOf platform DOGE_BRIDGE_PROGRAM_ID = bridgeState :=
  congrArg Prod.fst bridgeState_derived

theorem operatorRequest_compiled : CompiledAs requestKeys operatorRequest compiledRequest := by
  refine ⟨rfl, ?_, rfl⟩
  rw [operatorRequest, requestWithdrawal, platform_bridgeState]
  rfl

/-- The decoders report the account of the bridge for the operator's request. -/
theorem operator_request_reported :
    DecodedAs requestKeys compiledRequest (Vector.replicate 64 1) 7 none 50 (Vector.replicate 20 9)
      0 (bridgeStateOf platform DOGE_BRIDGE_PROGRAM_ID) :=
  (request_decoded_iff requestKeys compiledRequest operatorRequest_compiled (Vector.replicate 64 1)
    7 none).2.1

theorem operator_not_reported :
    CompiledAs requestKeys operatorRequest compiledRequest ∧
      ¬ DecodedAs requestKeys compiledRequest (Vector.replicate 64 1) 7 none 50
        (Vector.replicate 20 9) 0 operatorKey := by
  refine ⟨operatorRequest_compiled, ?_⟩
  intro h
  have hbridge := h.unique (decodedAs_bridge operatorRequest_compiled)
  rw [platform_bridgeState] at hbridge
  exact absurd hbridge (by decide)

end Sample

end RequestDecoding
