import PsyDogeBridge.PolledLog
import PsyDogeBridge.BridgeData

/-! What the monitors of the Rust client ask an RPC node, the transactions that the node reports,
and one poll, which both monitors do alike. -/
namespace ClientRpc

open PodLayout SolanaRuntime PolledLog

abbrev Signature := Vector UInt8 64

inductive BridgeError where
  | rpc (message : String)
  | rateLimited (retryAfterMs : UInt64)
  | invalidInput (message : String)
  | bufferCreationFailed (message : String)
  deriving DecidableEq, Repr

structure CompiledInstruction where
  programIdIndex : UInt8
  accounts : Bytes
  data : Bytes
  deriving DecidableEq

/-- The part of a message that the monitors read; `rest` is what only its serialisation reads. -/
structure VersionedMessage where
  numRequiredSignatures : UInt8
  staticAccountKeys : List Pubkey
  instructions : List CompiledInstruction
  rest : Bytes
  deriving DecidableEq

structure VersionedTransaction where
  signatures : List Signature
  message : VersionedMessage
  deriving DecidableEq

structure Codecs where
  parseSignature : String → Except String Signature
  base64 : String → Except String Bytes
  base58 : String → Except String Bytes
  bincode : Bytes → Except String VersionedTransaction
  serialize : VersionedMessage → Bytes
  verify : Signature → Pubkey → Bytes → Bool
  showPubkey : Pubkey → String
  showSignature : Signature → String

inductive EncodedTransaction where
  | binary (data : String)
  | other

inductive UiInstruction where
  | compiled (programIdIndex : UInt8) (accounts : Bytes) (data : String)
  | parsed

structure UiTransactionStatusMeta where
  err : Option String
  innerInstructions : Option (List (List UiInstruction))

structure EncodedConfirmedTransaction where
  slot : UInt64
  blockTime : Option ℤ
  transaction : EncodedTransaction
  statusMeta : Option UiTransactionStatusMeta

structure SignatureQuery where
  beforeSignature : Option Signature
  untilSignature : Option Signature
  limit : ℕ
  deriving DecidableEq

/-- The answers of a node. The rate limiter is asked before every request, so that its refusals
are among the errors. -/
structure Rpc where
  getSignaturesForAddress : Pubkey → SignatureQuery → Except BridgeError (List String)
  getTransaction : Signature → Except BridgeError EncodedConfirmedTransaction

section Decoding

variable (cx : Codecs)

def decodeTransaction : EncodedTransaction → Except BridgeError (Option VersionedTransaction)
  | .binary data => do
    let bytes ← (cx.base64 data).mapError fun e => .invalidInput ("Failed to decode tx: " ++ e)
    let tx ← (cx.bincode bytes).mapError
      fun e => .invalidInput ("Failed to deserialize tx: " ++ e)
    pure (some tx)
  | .other => pure none

/-- An inner instruction that is not compiled, or whose data is not base58, is passed over. -/
def decodeInstruction : UiInstruction → Option CompiledInstruction
  | .compiled programIdIndex accounts data =>
    (cx.base58 data).toOption.map fun d => ⟨programIdIndex, accounts, d⟩
  | .parsed => none

def EncodedConfirmedTransaction.inner (r : EncodedConfirmedTransaction) :
    List (List UiInstruction) :=
  match r.statusMeta with
  | some m => m.innerInstructions.getD []
  | none => []

end Decoding

/-- A transaction on the chain. `inner` has the instructions that each top-level instruction
called, in the order in which they ran; a failed transaction ran only some of its instructions. -/
structure ChainTransaction where
  signature : Signature
  slot : UInt64
  blockTime : Option ℤ
  transaction : VersionedTransaction
  loadedKeys : List Pubkey
  err : Option String
  inner : List (List CompiledInstruction)
  ran : err = none → inner.length = transaction.message.instructions.length

namespace ChainTransaction

def keys (t : ChainTransaction) : List Pubkey :=
  t.transaction.message.staticAccountKeys ++ t.loadedKeys

/-- The indices are of keys of the message itself, not of keys from a lookup table. -/
def Static (t : ChainTransaction) (indices : Bytes) : Prop :=
  ∀ i ∈ indices, i.toNat < t.transaction.message.staticAccountKeys.length

instance (t : ChainTransaction) (indices : Bytes) : Decidable (t.Static indices) :=
  List.decidableBAll _ indices

theorem Static.key {t : ChainTransaction} {indices : Bytes} (h : t.Static indices) {i : UInt8}
    (hi : i ∈ indices) :
    t.transaction.message.staticAccountKeys[i.toNat]? = t.keys[i.toNat]? :=
  (List.getElem?_append_left (h i hi)).symm

theorem static_key {t : ChainTransaction} {i : ℕ} {k : Pubkey}
    (h : t.transaction.message.staticAccountKeys[i]? = some k) : t.keys[i]? = some k :=
  (List.getElem?_append_left (List.getElem?_eq_some_iff.mp h).1).trans h

def executed (t : ChainTransaction) : List CompiledInstruction :=
  (List.zipWith List.cons t.transaction.message.instructions t.inner).flatten

variable {β : Type} {f : CompiledInstruction → Option β} {t : ChainTransaction}

/-- What ran is, in turn, each top-level instruction and those below it. -/
theorem executed_rec {P : List CompiledInstruction → List (List CompiledInstruction) →
      List CompiledInstruction → Prop} (ok : t.err = none) (nil : P [] [] [])
    (cons : ∀ ix ixs top inner ran, P top inner ran →
      P (ix :: top) (ixs :: inner) (ix :: ixs ++ ran)) :
    P t.transaction.message.instructions t.inner t.executed := by
  have hlen := t.ran ok
  unfold executed
  generalize t.transaction.message.instructions = top at hlen
  generalize t.inner = inner at hlen
  induction inner generalizing top with
  | nil =>
    obtain rfl := List.length_eq_zero_iff.mp hlen.symm
    exact nil
  | cons ixs inner ih =>
    obtain ⟨ix, top, rfl⟩ := List.exists_cons_of_length_eq_add_one hlen.symm
    exact cons _ _ _ _ _ (ih top (by simpa using hlen))

theorem executed_top (ok : t.err = none) (h : ∀ ixs ∈ t.inner, ∀ ix ∈ ixs, f ix = none) :
    t.executed.filterMap f = t.transaction.message.instructions.filterMap f := by
  revert h
  refine executed_rec (P := fun top inner ran => (∀ ixs ∈ inner, ∀ ix ∈ ixs, f ix = none) →
    ran.filterMap f = top.filterMap f) ok (fun _ => rfl) fun ix ixs top inner ran ih h => ?_
  rw [List.forall_mem_cons] at h
  have hbelow : ixs.filterMap f = [] := List.filterMap_eq_nil_iff.mpr h.1
  cases hix : f ix <;> simp [hix, hbelow, ih h.2]

theorem executed_perm (ok : t.err = none) :
    t.executed.Perm (t.transaction.message.instructions ++ t.inner.flatten) :=
  executed_rec (P := fun top inner ran => ran.Perm (top ++ inner.flatten)) ok .nil
    fun _ ixs top inner _ ih => .cons _ <|
      (ih.append_left ixs).trans (List.perm_append_comm_assoc ixs top inner.flatten)

theorem executed_inner (ok : t.err = none)
    (h : ∀ ix ∈ t.transaction.message.instructions, f ix = none) :
    t.executed.filterMap f = t.inner.flatten.filterMap f := by
  revert h
  refine executed_rec (P := fun top inner ran => (∀ ix ∈ top, f ix = none) →
    ran.filterMap f = inner.flatten.filterMap f) ok (fun _ => rfl) ?_
  intro ix ixs top inner ran ih h
  rw [List.forall_mem_cons] at h
  simp [h.1, ih h.2]

end ChainTransaction

theorem toList_findSome {α β : Type} {f : α → Option β} {l : List α}
    (h : (l.filterMap f).length ≤ 1) : (l.findSome? f).toList = l.filterMap f := by
  rw [← List.head?_filterMap]
  generalize l.filterMap f = found at h
  match found, h with
  | [], _ => rfl
  | [e], _ => rfl

structure Reports (cx : Codecs) (t : ChainTransaction) (r : EncodedConfirmedTransaction) :
    Prop where
  slot : r.slot = t.slot
  blockTime : r.blockTime = t.blockTime
  transaction : decodeTransaction cx r.transaction = .ok (some t.transaction)
  err : ∃ m, r.statusMeta = some m ∧ m.err = t.err
  inner : r.inner.map (·.map (decodeInstruction cx)) =
    (t.inner.filter (· ≠ [])).map (·.map some)

def listed (address : Pubkey) (chain : List ChainTransaction) : List ChainTransaction :=
  chain.filter (address ∈ ·.keys)

def ReportsChain (cx : Codecs) (chain : List ChainTransaction) (rpc : Rpc) : Prop :=
  ∀ sig r, rpc.getTransaction sig = .ok r → ∃ t ∈ chain, t.signature = sig ∧ Reports cx t r

/-- The node lists the newest signatures after the given one, newest first, as many as asked. -/
def ListsChain (cx : Codecs) (address : Pubkey) (chain : List ChainTransaction) (rpc : Rpc) :
    Prop :=
  ∀ checkpoint limit names,
    rpc.getSignaturesForAddress address ⟨none, checkpoint, limit⟩ = .ok names →
    names.map cx.parseSignature =
      (page ChainTransaction.signature (listed address chain) checkpoint limit).map
        fun t => .ok t.signature

section Polling

variable {μ : Type}

/-- What the two monitors do differently in a poll. -/
structure Monitor (μ : Type) where
  address : Pubkey
  batchSize : ℕ
  parse : Rpc → Signature → Except BridgeError (Option μ)

/-- The loop of `poll_once`: a signature that cannot be parsed is passed over, an error ends the
loop, and so does a receiver that was dropped. -/
def deliver (cx : Codecs) (parse : Signature → Except BridgeError (Option μ)) (send : μ → Bool) :
    List String → List μ × Except BridgeError Unit
  | [] => ([], .ok ())
  | name :: rest =>
    match cx.parseSignature name with
    | .error _ => deliver cx parse send rest
    | .ok sig =>
      match parse sig with
      | .error e => ([], .error e)
      | .ok none => deliver cx parse send rest
      | .ok (some event) =>
        if send event then
          let (sent, result) := deliver cx parse send rest
          (event :: sent, result)
        else ([], .ok ())

structure Polled (μ : Type) where
  afterSignature : Option Signature
  sent : List μ
  result : Except BridgeError Unit

/-- `poll_once`: the checkpoint is moved to the newest signature before the transactions are
fetched, oldest first. -/
def Monitor.pollOnce (m : Monitor μ) (cx : Codecs) (rpc : Rpc) (send : μ → Bool)
    (afterSignature : Option Signature) : Polled μ :=
  match rpc.getSignaturesForAddress m.address ⟨none, afterSignature, m.batchSize⟩ with
  | .error e => ⟨afterSignature, [], .error e⟩
  | .ok [] => ⟨afterSignature, [], .ok ()⟩
  | .ok (newest :: older) =>
    let checkpoint := match cx.parseSignature newest with
      | .ok sig => some sig
      | .error _ => afterSignature
    let (sent, result) := deliver cx (m.parse rpc) send (newest :: older).reverse
    ⟨checkpoint, sent, result⟩

end Polling

end ClientRpc
