import PsyDogeBridge.ClientRpc
import PsyDogeBridge.PagedScan
import PsyDogeBridge.ManualClaimClient

/-! The history of a user's claims, as the Rust and the JavaScript client of the user read it from
the transactions that touch the user's claim state. -/
namespace ClaimHistory

open PodLayout SolanaRuntime ClientRpc PolledLog PagedScan ManualClaim ManualClaimClient

inductive UserClientError where
  | rpc (message : String)
  | invalidInput (message : String)
  deriving DecidableEq, Repr

structure SignatureInfo where
  signature : String
  slot : UInt64
  err : Option String
  blockTime : Option ℤ
  deriving DecidableEq

structure ParsedManualClaim (σ : Type) where
  signature : σ
  slot : UInt64
  blockTime : Option ℤ
  instruction : ManualClaimInstruction
  deriving DecidableEq

section Rust

structure UserRpc where
  getSignaturesForAddress : Pubkey → SignatureQuery → Except UserClientError (List SignatureInfo)
  getTransaction : Signature → Except UserClientError EncodedConfirmedTransaction

variable (cx : Codecs) (rpc : UserRpc) (p : Platform) (config : ManualClaimClientConfig)

def parseInstruction (message : VersionedMessage) (ix : CompiledInstruction) :
    Option ManualClaimInstruction :=
  match message.staticAccountKeys[ix.programIdIndex.toNat]? with
  | none => none
  | some programId =>
    if programId = config.manualClaimProgramId then
      if 8 ≤ ix.data.length ∧ ix.data.head? = some MC_MANUAL_CLAIM_TRANSACTION_DESCRIMINATOR then
        if 8 + ManualClaimInstruction.pod.size ≤ ix.data.length then
          some (ManualClaimInstruction.pod.decode
            ((ix.data.drop 8).take ManualClaimInstruction.pod.size))
        else none
      else none
    else none

/-- The first claim of a transaction. A transaction that cannot be decoded has none. -/
def fetchAndParseClaimTransaction (signature : Signature) :
    Except UserClientError (Option ManualClaimInstruction) := do
  let tx ← rpc.getTransaction signature
  match decodeTransaction cx tx.transaction with
  | .ok (some transaction) =>
    pure (transaction.message.instructions.findSome? (parseInstruction config transaction.message))
  | _ => pure none

def collectClaims : List SignatureInfo → Except UserClientError (List (ParsedManualClaim Signature))
  | [] => pure []
  | sigInfo :: rest =>
    if sigInfo.err.isSome then collectClaims rest
    else do
      let signature ← (cx.parseSignature sigInfo.signature).mapError
        fun e => .invalidInput ("Invalid signature: " ++ e)
      match fetchAndParseClaimTransaction cx rpc config signature with
      | .ok (some instruction) =>
        let claims ← collectClaims rest
        pure (⟨signature, sigInfo.slot, sigInfo.blockTime, instruction⟩ :: claims)
      | .ok none => collectClaims rest
      | .error _ => collectClaims rest

def getClaimHistory (user : Pubkey) (before : Option Signature) (limit : Option ℕ) :
    Except UserClientError (List (ParsedManualClaim Signature)) := do
  let signatures ← rpc.getSignaturesForAddress (deriveClaimPda p config user).1
    ⟨before, none, limit.getD 100⟩
  collectClaims cx rpc config signatures

def getAllClaimHistory (user : Pubkey) (batchSize : Option ℕ) (requests : ℕ) :
    Option (Except UserClientError (List (ParsedManualClaim Signature))) :=
  let batchSize := batchSize.getD 100
  scan (fun before => getClaimHistory cx rpc p config user before (some batchSize))
    ParsedManualClaim.signature batchSize requests none []

end Rust

section JavaScript

/-- The answers of a node to web3.js, which decodes transactions itself. -/
structure Connection where
  getSignaturesForAddress : Pubkey → Option String → ℕ → Except String (List SignatureInfo)
  getTransaction : String → Except String (Option VersionedMessage)

variable (connection : Connection) (p : Platform) (config : ManualClaimClientConfig)

def deserializeManualClaimInstruction (data : Bytes) : Option ManualClaimInstruction :=
  if data.length < 8 + (256 + 32 + 32 + 32 + 32 + 8 + 8) then none
  else if data.head? ≠ some MC_MANUAL_CLAIM_TRANSACTION_DESCRIMINATOR then none
  else some
    { proof := (Pod.bytes 256).decode (slice data 8 256)
      recentBlockMerkleTreeRoot := BridgeData.hashPod.decode (slice data 264 32)
      recentAutoClaimTxoRoot := BridgeData.hashPod.decode (slice data 296 32)
      newManualClaimTxoRoot := BridgeData.hashPod.decode (slice data 328 32)
      txHash := BridgeData.hashPod.decode (slice data 360 32)
      combinedTxoIndex := Pod.u64.decode (slice data 392 8)
      depositAmountSats := Pod.u64.decode (slice data 400 8) }

def parseInstructionJs (message : VersionedMessage) (ix : CompiledInstruction) :
    Option ManualClaimInstruction :=
  match message.staticAccountKeys[ix.programIdIndex.toNat]? with
  | none => none
  | some programId =>
    if programId = config.manualClaimProgramId then deserializeManualClaimInstruction ix.data
    else none

def fetchAndParseClaimTransactionJs (signature : String) :
    Except String (Option ManualClaimInstruction) := do
  match ← connection.getTransaction signature with
  | none => pure none
  | some message => pure (message.instructions.findSome? (parseInstructionJs config message))

def collectClaimsJs : List SignatureInfo → List (ParsedManualClaim String)
  | [] => []
  | sigInfo :: rest =>
    if sigInfo.err.isSome then collectClaimsJs rest
    else
      match fetchAndParseClaimTransactionJs connection config sigInfo.signature with
      | .ok (some instruction) =>
        ⟨sigInfo.signature, sigInfo.slot, sigInfo.blockTime, instruction⟩ :: collectClaimsJs rest
      | .ok none => collectClaimsJs rest
      | .error _ => collectClaimsJs rest

def getClaimHistoryJs (user : Pubkey) (before : Option String) (limit : Option ℕ) :
    Except String (List (ParsedManualClaim String)) := do
  let signatures ← connection.getSignaturesForAddress (deriveClaimPda p config user).1 before
    (limit.getD 100)
  pure (collectClaimsJs connection config signatures)

def getAllClaimHistoryJs (user : Pubkey) (batchSize : Option ℕ) (requests : ℕ) :
    Option (Except String (List (ParsedManualClaim String))) :=
  let batchSize := batchSize.getD 100
  scan (fun before => getClaimHistoryJs connection p config user before (some batchSize))
    ParsedManualClaim.signature batchSize requests none []

theorem deserializeManualClaimInstruction_eq (data : Bytes) :
    deserializeManualClaimInstruction data =
      if data.length < 8 + 400 then none
      else if data.head? ≠ some MC_MANUAL_CLAIM_TRANSACTION_DESCRIMINATOR then none
      else some (ManualClaimInstruction.pod.decode ((data.drop 8).take 400)) := by
  refine ite_congr rfl (fun _ => rfl) fun _ => ite_congr rfl (fun _ => rfl) fun _ => ?_
  refine congrArg some (Eq.symm ?_)
  generalize hl : (data.drop 8).take 400 = l
  have hfield (offset size : ℕ) (h : offset + size ≤ 400) :
      (l.drop offset).take size = slice data (8 + offset) size := by
    rw [← hl, slice, List.drop_take, List.take_take, List.drop_drop, Nat.min_eq_left (by omega)]
  have hlast : l.drop 392 = slice data 400 8 := by
    rw [← hl, slice, List.drop_take, List.drop_drop]
  change (⟨(Pod.bytes 256).decode ((l.drop 0).take 256),
    BridgeData.hashPod.decode ((l.drop 256).take 32),
    BridgeData.hashPod.decode (((l.drop 256).drop 32).take 32),
    BridgeData.hashPod.decode ((((l.drop 256).drop 32).drop 32).take 32),
    BridgeData.hashPod.decode (((((l.drop 256).drop 32).drop 32).drop 32).take 32),
    Pod.u64.decode ((((((l.drop 256).drop 32).drop 32).drop 32).drop 32).take 8),
    Pod.u64.decode ((((((l.drop 256).drop 32).drop 32).drop 32).drop 32).drop 8)⟩ :
    ManualClaimInstruction) = _
  simp only [List.drop_drop, Nat.reduceAdd, hlast]
  rw [hfield 0 256 (by decide), hfield 256 32 (by decide), hfield 288 32 (by decide),
    hfield 320 32 (by decide), hfield 352 32 (by decide), hfield 384 8 (by decide)]

theorem parseInstructionJs_eq (message : VersionedMessage) (ix : CompiledInstruction) :
    parseInstructionJs config message ix = parseInstruction config message ix := by
  have hsize : ManualClaimInstruction.pod.size = 400 := rfl
  unfold parseInstructionJs parseInstruction
  cases message.staticAccountKeys[ix.programIdIndex.toNat]? with
  | none => rfl
  | some programId =>
    dsimp only
    rw [deserializeManualClaimInstruction_eq, hsize]
    by_cases hprogram : programId = config.manualClaimProgramId
    · rw [if_pos hprogram, if_pos hprogram]
      by_cases hlen : 8 + 400 ≤ ix.data.length
      · rw [if_neg (not_lt.mpr hlen), if_pos hlen]
        have hlong : 8 ≤ ix.data.length := le_trans (Nat.le_add_right 8 400) hlen
        by_cases hfirst : ix.data.head? = some MC_MANUAL_CLAIM_TRANSACTION_DESCRIMINATOR
        · rw [if_neg (not_not.mpr hfirst), if_pos ⟨hlong, hfirst⟩]
        · rw [if_pos hfirst, if_neg (fun h => hfirst h.2)]
      · rw [if_pos (not_le.mp hlen), if_neg hlen, ite_self]
    · rw [if_neg hprogram, if_neg hprogram]

end JavaScript

section Chain

variable (config : ManualClaimClientConfig)

/-- The claim that the manual-claim program reads in an instruction. It skips the first eight
bytes, whatever they are. -/
def claimIn (t : ChainTransaction) (ix : CompiledInstruction) : Option ManualClaimInstruction :=
  if t.keys[ix.programIdIndex.toNat]? = some config.manualClaimProgramId then
    ManualClaimInstruction.pod.read (ix.data.drop 8)
  else none

def claims (t : ChainTransaction) : List ManualClaimInstruction :=
  if t.err = none then (t.executed.filterMap (claimIn config t)).reverse else []

/-- What ran in a successful transaction: the programs at the top level are among the keys of the
message itself, and manual-claim could deserialize every instruction that it was given. -/
structure Ran (t : ChainTransaction) : Prop where
  named : t.err = none → ∀ ix ∈ t.transaction.message.instructions,
    ix.programIdIndex.toNat < t.transaction.message.staticAccountKeys.length
  read : t.err = none → ∀ ix ∈ t.executed,
    t.keys[ix.programIdIndex.toNat]? = some config.manualClaimProgramId →
      ∃ c, ix.data.drop 8 = ManualClaimInstruction.pod.encode c

/-- A transaction of which the clients see all claims: there is at most one, no other program made
it, and it starts with the discriminator that the clients write. -/
structure Plain (t : ChainTransaction) : Prop where
  direct : ∀ ixs ∈ t.inner, ∀ ix ∈ ixs, claimIn config t ix = none
  single : (t.transaction.message.instructions.filterMap (claimIn config t)).length ≤ 1
  tagged : ∀ ix ∈ t.transaction.message.instructions, claimIn config t ix ≠ none →
    ix.data.head? = some MC_MANUAL_CLAIM_TRANSACTION_DESCRIMINATOR

def found (t : ChainTransaction) : Option ManualClaimInstruction :=
  if t.err = none then
    t.transaction.message.instructions.findSome? (parseInstruction config t.transaction.message)
  else none

variable {config} {t : ChainTransaction} {ix : CompiledInstruction}

theorem mem_executed (ok : t.err = none) (hix : ix ∈ t.transaction.message.instructions) :
    ix ∈ t.executed :=
  (ChainTransaction.executed_perm ok).mem_iff.mpr (List.mem_append_left _ hix)

theorem passing_unique {α β : Type} {f : α → Option β} {l : List α}
    (h : (l.filterMap f).length ≤ 1) {a b : α} (ha : a ∈ l) (hb : b ∈ l) (hfa : f a ≠ none)
    (hfb : f b ≠ none) : a = b := by
  rw [List.length_filterMap_eq_countP, List.countP_eq_length_filter] at h
  have hmem {c : α} (hc : c ∈ l) (hfc : f c ≠ none) : c ∈ l.filter fun x => (f x).isSome :=
    List.mem_filter.mpr ⟨hc, Option.isSome_iff_ne_none.mpr hfc⟩
  have ha' := hmem ha hfa
  have hb' := hmem hb hfb
  generalize l.filter (fun x => (f x).isSome) = passed at h ha' hb'
  match passed, h with
  | [c], _ => exact (List.mem_singleton.mp ha').trans (List.mem_singleton.mp hb').symm

section

variable (h : Ran config t) (ok : t.err = none)
include h ok

/-- At the top level the clients see the claims with the right first byte. -/
theorem Ran.parse (hix : ix ∈ t.transaction.message.instructions) :
    parseInstruction config t.transaction.message ix =
      if ix.data.head? = some MC_MANUAL_CLAIM_TRANSACTION_DESCRIMINATOR then claimIn config t ix
      else none := by
  have hkey : t.keys[ix.programIdIndex.toNat]? =
      t.transaction.message.staticAccountKeys[ix.programIdIndex.toNat]? :=
    List.getElem?_append_left (h.named ok ix hix)
  unfold parseInstruction claimIn
  rw [hkey]
  cases hprogram : t.transaction.message.staticAccountKeys[ix.programIdIndex.toNat]? with
  | none => simp
  | some programId =>
    dsimp only
    by_cases hclaim : programId = config.manualClaimProgramId
    · subst hclaim
      obtain ⟨c, hc⟩ := h.read ok _ (mem_executed ok hix) (hkey.trans hprogram)
      have hlen : ix.data.length - 8 = ManualClaimInstruction.pod.size := by
        rw [← List.length_drop, hc, Pod.encode_length]
      have hpos : ManualClaimInstruction.pod.size = 400 := rfl
      have hlong : 8 ≤ ix.data.length := by omega
      have hwhole : 8 + ManualClaimInstruction.pod.size ≤ ix.data.length := by omega
      rw [if_pos rfl, if_pos hwhole, hc, if_pos rfl, Pod.read_encode,
        List.take_of_length_le (Pod.encode_length ..).le, Pod.decode_encode]
      by_cases hfirst : ix.data.head? = some MC_MANUAL_CLAIM_TRANSACTION_DESCRIMINATOR
      · rw [if_pos ⟨hlong, hfirst⟩, if_pos hfirst]
      · rw [if_neg (fun h => hfirst h.2), if_neg hfirst]
    · rw [if_neg hclaim, if_neg (fun h => hclaim (Option.some.inj h)), ite_self]

theorem Ran.plain_of_found (heq : (found config t).toList = claims config t) : Plain config t := by
  rw [found, if_pos ok, claims, if_pos ok] at heq
  have htotal := congrArg List.length heq
  rw [List.length_reverse, ((ChainTransaction.executed_perm ok).filterMap _).length_eq,
    List.filterMap_append, List.length_append] at htotal
  have hle := Option.length_toList_le (o := t.transaction.message.instructions.findSome?
    (parseInstruction config t.transaction.message))
  have hseen : t.transaction.message.instructions.findSome?
      (parseInstruction config t.transaction.message) = none ∨
      ∃ ix ∈ t.transaction.message.instructions, claimIn config t ix ≠ none ∧
        ix.data.head? = some MC_MANUAL_CLAIM_TRANSACTION_DESCRIMINATOR := by
    cases hfirst : t.transaction.message.instructions.findSome?
        (parseInstruction config t.transaction.message) with
    | none => exact .inl rfl
    | some c =>
      obtain ⟨ix, hix, hc⟩ := List.exists_of_findSome?_eq_some hfirst
      rw [h.parse ok hix] at hc
      split at hc
      · next hhead => exact .inr ⟨ix, hix, by simp [hc], hhead⟩
      · cases hc
  have hpassed {ix : CompiledInstruction} (hix : ix ∈ t.transaction.message.instructions)
      (hclaim : claimIn config t ix ≠ none) :
      0 < (t.transaction.message.instructions.filterMap (claimIn config t)).length := by
    obtain ⟨c, hc⟩ := Option.ne_none_iff_exists'.mp hclaim
    exact List.length_pos_of_mem (List.mem_filterMap.mpr ⟨ix, hix, hc⟩)
  have single : (t.transaction.message.instructions.filterMap (claimIn config t)).length ≤ 1 := by
    omega
  refine ⟨?_, single, ?_⟩
  · have hnone : (t.inner.flatten.filterMap (claimIn config t)).length = 0 := by
      rcases hseen with hnone | ⟨ix, hix, hclaim, -⟩
      · rw [hnone, Option.toList_none, List.length_nil] at htotal
        omega
      · have := hpassed hix hclaim
        omega
    rw [List.length_eq_zero_iff, List.filterMap_eq_nil_iff] at hnone
    intro ixs hixs ix hix
    exact hnone ix (List.mem_flatten.mpr ⟨ixs, hixs, hix⟩)
  · intro ix hix hclaim
    rcases hseen with hnone | ⟨seen, hseen, hsome, hhead⟩
    · have := hpassed hix hclaim
      rw [hnone, Option.toList_none, List.length_nil] at htotal
      omega
    · rwa [passing_unique single hix hseen hclaim hsome]

theorem Ran.found_of_plain (hplain : Plain config t) :
    (found config t).toList = claims config t := by
  have hparse : t.transaction.message.instructions.filterMap
      (parseInstruction config t.transaction.message) =
      t.transaction.message.instructions.filterMap (claimIn config t) := by
    apply List.filterMap_congr
    intro ix hix
    rw [h.parse ok hix]
    by_cases hclaim : claimIn config t ix = none
    · rw [hclaim, ite_self]
    · rw [if_pos (hplain.tagged ix hix hclaim)]
  have hsingle := hplain.single
  rw [found, if_pos ok, claims, if_pos ok, ChainTransaction.executed_top ok hplain.direct,
    toList_findSome (hparse ▸ hsingle), hparse]
  generalize t.transaction.message.instructions.filterMap (claimIn config t) = cs at hsingle
  match cs, hsingle with
  | [], _ => rfl
  | [c], _ => rfl

end

/-- The clients find all claims of a transaction only if it failed or is plain. -/
theorem Ran.found_iff (h : Ran config t) :
    (found config t).toList = claims config t ↔ (t.err = none → Plain config t) := by
  by_cases ok : t.err = none
  · exact ⟨fun heq _ => h.plain_of_found ok heq, fun hplain => h.found_of_plain ok (hplain ok)⟩
  · simp [found, claims, ok]

end Chain

section Nodes

variable (cx : Codecs) (config : ManualClaimClientConfig)

def signatureName (t : ChainTransaction) : String := cx.showSignature t.signature

def signatureInfo (t : ChainTransaction) : SignatureInfo :=
  ⟨signatureName cx t, t.slot, t.err, t.blockTime⟩

/-- The node lists what is older than the cursor, newest first. After the first `passed`
transactions it lists `pageSize limit passed` ones. Every fetch succeeds. -/
structure Serves (address : Pubkey) (history : List ChainTransaction) (pageSize : ℕ → ℕ → ℕ)
    (rpc : UserRpc) : Prop where
  lists : ∀ before limit passed,
    since ChainTransaction.signature history before = history.drop passed →
      rpc.getSignaturesForAddress address ⟨before, none, limit⟩ =
        .ok ((pageAt history (pageSize limit) passed).map (signatureInfo cx))
  fetches : ∀ t ∈ history, ∃ r, rpc.getTransaction t.signature = .ok r ∧ Reports cx t r

structure ServesJs (address : Pubkey) (history : List ChainTransaction) (pageSize : ℕ → ℕ → ℕ)
    (connection : Connection) : Prop where
  lists : ∀ before limit passed,
    since (signatureName cx) history before = history.drop passed →
      connection.getSignaturesForAddress address before limit =
        .ok ((pageAt history (pageSize limit) passed).map (signatureInfo cx))
  fetches : ∀ t ∈ history,
    connection.getTransaction (signatureName cx t) = .ok (some t.transaction.message)

def parsed {σ : Type} (name : ChainTransaction → σ) (t : ChainTransaction)
    (instruction : ManualClaimInstruction) : ParsedManualClaim σ :=
  ⟨name t, t.slot, t.blockTime, instruction⟩

def foundIn {σ : Type} (name : ChainTransaction → σ) (t : ChainTransaction) :
    Option (ParsedManualClaim σ) :=
  (found config t).map (parsed name t)

def claimsIn {σ : Type} (name : ChainTransaction → σ) (t : ChainTransaction) :
    List (ParsedManualClaim σ) :=
  (claims config t).map (parsed name t)

variable {cx config} {p : Platform} {user address : Pubkey} {history ts : List ChainTransaction}
  {pageSize : ℕ → ℕ → ℕ} {rpc : UserRpc} {connection : Connection}

theorem fetch_found (hserves : Serves cx address history pageSize rpc) {t : ChainTransaction}
    (ht : t ∈ history) (ok : t.err = none) :
    fetchAndParseClaimTransaction cx rpc config t.signature = .ok (found config t) := by
  obtain ⟨r, hr, hreports⟩ := hserves.fetches t ht
  simp [fetchAndParseClaimTransaction, hr, hreports.transaction, found, ok, bind, Except.bind,
    pure, Except.pure]

theorem fetch_found_js (hserves : ServesJs cx address history pageSize connection)
    {t : ChainTransaction} (ht : t ∈ history) (ok : t.err = none) :
    fetchAndParseClaimTransactionJs connection config (signatureName cx t) =
      .ok (found config t) := by
  have hparse : parseInstructionJs config t.transaction.message =
      parseInstruction config t.transaction.message :=
    funext (parseInstructionJs_eq config t.transaction.message)
  simp [fetchAndParseClaimTransactionJs, hserves.fetches t ht, found, ok, hparse, bind,
    Except.bind, pure, Except.pure]

theorem foundIn_failed {σ : Type} {name : ChainTransaction → σ} {t : ChainTransaction}
    (h : t.err ≠ none) : foundIn config name t = none := by
  rw [foundIn, found, if_neg h, Option.map_none]

theorem collectClaims_eq (hserves : Serves cx address history pageSize rpc)
    (hcodec : ∀ t ∈ history, cx.parseSignature (signatureName cx t) = .ok t.signature)
    (hts : ts ⊆ history) : collectClaims cx rpc config (ts.map (signatureInfo cx)) =
      .ok (ts.filterMap (foundIn config ChainTransaction.signature)) := by
  induction ts with
  | nil => rfl
  | cons t ts ih =>
    obtain ⟨ht, hrest⟩ := List.cons_subset.mp hts
    rw [List.map_cons, collectClaims, ih hrest]
    by_cases ok : t.err = none
    · cases hfound : found config t <;>
        simp [signatureInfo, ok, hcodec t ht, fetch_found hserves ht ok, hfound, foundIn, parsed,
          bind, Except.bind, pure, Except.pure, Except.mapError]
    · have hinfo : (signatureInfo cx t).err.isSome := Option.isSome_iff_ne_none.mpr ok
      rw [if_pos hinfo, List.filterMap_cons_none (foundIn_failed ok)]

theorem collectClaimsJs_eq (hserves : ServesJs cx address history pageSize connection)
    (hts : ts ⊆ history) : collectClaimsJs connection config (ts.map (signatureInfo cx)) =
      ts.filterMap (foundIn config (signatureName cx)) := by
  induction ts with
  | nil => rfl
  | cons t ts ih =>
    obtain ⟨ht, hrest⟩ := List.cons_subset.mp hts
    rw [List.map_cons, collectClaimsJs, ih hrest]
    by_cases ok : t.err = none
    · cases hfound : found config t <;>
        simp [signatureInfo, ok, fetch_found_js hserves ht ok, hfound, foundIn, parsed]
    · have hinfo : (signatureInfo cx t).err.isSome := Option.isSome_iff_ne_none.mpr ok
      rw [if_pos hinfo, List.filterMap_cons_none (foundIn_failed ok)]

theorem pageAt_subset (history : List ChainTransaction) (size : ℕ → ℕ) (passed : ℕ) :
    pageAt history size passed ⊆ history :=
  fun _ ht => List.mem_of_mem_drop (List.mem_of_mem_take ht)

theorem getClaimHistory_reads {limit : ℕ}
    (hserves : Serves cx (deriveClaimPda p config user).1 history pageSize rpc)
    (hcodec : ∀ t ∈ history, cx.parseSignature (signatureName cx t) = .ok t.signature) :
    ReadsPages (fun before => getClaimHistory cx rpc p config user before (some limit))
      ChainTransaction.signature (foundIn config ChainTransaction.signature) history
      (pageSize limit) := by
  intro before passed hbefore
  have hlists := hserves.lists before limit passed hbefore
  have hcollect : collectClaims cx rpc config _ = _ := collectClaims_eq hserves hcodec
    (pageAt_subset history (pageSize limit) passed)
  simp only [getClaimHistory, Option.getD_some, hlists, bind, Except.bind, hcollect]

theorem getClaimHistoryJs_reads {limit : ℕ}
    (hserves : ServesJs cx (deriveClaimPda p config user).1 history pageSize connection) :
    ReadsPages (fun before => getClaimHistoryJs connection p config user before (some limit))
      (signatureName cx) (foundIn config (signatureName cx)) history (pageSize limit) := by
  intro before passed hbefore
  have hlists := hserves.lists before limit passed hbefore
  have hcollect : collectClaimsJs connection config _ = _ := collectClaimsJs_eq hserves
    (pageAt_subset history (pageSize limit) passed)
  simp only [getClaimHistoryJs, Option.getD_some, hlists, bind, Except.bind, hcollect, pure,
    Except.pure]

end Nodes

section Complete

def Returns {ε α : Type} (run : ℕ → Option (Except ε α)) (a : α) : Prop :=
  ∃ needed, ∀ requests, needed < requests → run requests = some (.ok a)

theorem Returns.unique {ε α : Type} {run : ℕ → Option (Except ε α)} {a b : α}
    (ha : Returns run a) (hb : Returns run b) : a = b := by
  obtain ⟨i, hi⟩ := ha
  obtain ⟨j, hj⟩ := hb
  have h := (hi (i + j + 1) (by omega)).symm.trans (hj (i + j + 1) (by omega))
  cases h
  rfl

/-- The histories that the clients read completely. Every successful transaction is plain, and no
claim is older than the first page with less transactions with a claim than the client asked for. -/
structure Readable (config : ManualClaimClientConfig) (history : List ChainTransaction)
    (size : ℕ → ℕ) (n : ℕ) : Prop where
  plain : ∀ t ∈ history, t.err = none → Plain config t
  recent : ∀ i, (∀ j < i, Full (fun t => (claims config t).head?) history size n (j * n)) →
    ¬ Full (fun t => (claims config t).head?) history size n (i * n) →
    ∀ t ∈ history.drop (i * n + size (i * n)), claims config t = []

variable {config : ManualClaimClientConfig} {history : List ChainTransaction} {size : ℕ → ℕ}
  {n : ℕ}

theorem plain_of_no_claims {t : ChainTransaction} (ok : t.err = none) (h : claims config t = []) :
    Plain config t := by
  rw [claims, if_pos ok, List.reverse_eq_nil_iff, List.filterMap_eq_nil_iff] at h
  have hmem {ix : CompiledInstruction}
      (hix : ix ∈ t.transaction.message.instructions ++ t.inner.flatten) :
      claimIn config t ix = none :=
    h ix ((ChainTransaction.executed_perm ok).mem_iff.mpr hix)
  refine ⟨?_, ?_, ?_⟩
  · intro ixs hixs ix hix
    exact hmem (List.mem_append_right _ (List.mem_flatten.mpr ⟨ixs, hixs, hix⟩))
  · rw [List.filterMap_eq_nil_iff.mpr fun ix hix => hmem (List.mem_append_left _ hix)]
    exact Nat.zero_le 1
  · intro ix hix hclaim
    exact absurd (hmem (List.mem_append_left _ hix)) hclaim

section Names

variable {σ ε : Type} {name : ChainTransaction → σ} {t : ChainTransaction}

theorem foundIn_eq_iff : (foundIn config name t).toList = claimsIn config name t ↔
    (found config t).toList = claims config t := by
  have hinj : Function.Injective (parsed name t) := by
    intro c d h
    exact congrArg ParsedManualClaim.instruction h
  rw [foundIn, claimsIn, Option.toList_map]
  exact (List.map_injective_iff.mpr hinj).eq_iff

theorem parsed_signature {c : ParsedManualClaim σ} (h : c ∈ claimsIn config name t) :
    c.signature = name t := by
  obtain ⟨ix, -, rfl⟩ := List.mem_map.mp h
  rfl

theorem foundIn_signature {c : ParsedManualClaim σ} (h : foundIn config name t = some c) :
    c.signature = name t := by
  obtain ⟨ix, -, rfl⟩ := Option.map_eq_some_iff.mp h
  rfl

theorem seen_eq_iff [DecidableEq σ] (distinct : (history.map name).Nodup) (q : ℕ) :
    (history.take q).filterMap (foundIn config name) = history.flatMap (claimsIn config name) ↔
      (∀ t ∈ history.take q, (found config t).toList = claims config t) ∧
        ∀ t ∈ history.drop q, claims config t = [] := by
  have hsplit := List.take_append_drop q history
  rw [← hsplit] at distinct
  have hfound (t : ChainTransaction) (c : ParsedManualClaim σ)
      (hc : c ∈ (foundIn config name t).toList) : c.signature = name t :=
    foundIn_signature (Option.mem_toList.mp hc)
  have hexact : (history.take q).flatMap (fun t => (foundIn config name t).toList) =
      (history.take q ++ history.drop q).flatMap (claimsIn config name) ↔ _ :=
    found_eq_iff distinct hfound fun _ _ => parsed_signature
  rw [hsplit, ← List.filterMap_eq_flatMap_toList] at hexact
  have hnone (t : ChainTransaction) : claimsIn config name t = [] ↔ claims config t = [] :=
    List.map_eq_nil_iff
  simpa only [foundIn_eq_iff, hnone] using hexact

variable [DecidableEq σ] {readPage : Option σ → Except ε (List (ParsedManualClaim σ))}

/-- A client that reads the pages of the history comes to an end, and it has all claims then only
if the history is readable. -/
theorem returns_iff (hread : ReadsPages readPage name (foundIn config name) history size)
    (hsize : ∀ p, size p ≤ n) (hn : 1 ≤ n) (distinct : (history.map name).Nodup)
    (hran : ∀ t ∈ history, Ran config t) :
    let run := fun requests => scan readPage ParsedManualClaim.signature n requests none []
    (∃ all, Returns run all) ∧
      (Returns run (history.flatMap (claimsIn config name)) ↔ Readable config history size n) := by
  obtain ⟨i, hfull, hshort⟩ := exists_short (foundIn config name) history hsize hn
  intro run
  have hreturns : Returns run _ := ⟨i, fun requests hi => scan_result hread hsize hn distinct
    (fun _ _ => foundIn_signature) hfull hshort hi⟩
  have hiff : Returns run (history.flatMap (claimsIn config name)) ↔
      (∀ t ∈ history.take (i * n + size (i * n)), (found config t).toList = claims config t) ∧
        ∀ t ∈ history.drop (i * n + size (i * n)), claims config t = [] := by
    rw [← seen_eq_iff distinct]
    exact ⟨hreturns.unique, fun h => h ▸ hreturns⟩
  have hpages (hplain : ∀ t ∈ history, t.err = none → Plain config t) (p : ℕ) :
      Full (foundIn config name) history size n p ↔
        Full (fun t => (claims config t).head?) history size n p := by
    apply full_congr
    intro t ht
    rw [← (hran t ht).found_iff.mpr (hplain t ht), foundIn, Option.isSome_map]
    cases found config t with
    | none => rfl
    | some c => rfl
  refine ⟨⟨_, hreturns⟩, hiff.trans ?_⟩
  constructor
  · rintro ⟨hseen, hunseen⟩
    have hplain : ∀ t ∈ history, t.err = none → Plain config t := by
      intro t ht ok
      rw [← List.take_append_drop (i * n + size (i * n)) history, List.mem_append] at ht
      rcases ht with ht | ht
      · exact (hran t (List.mem_of_mem_take ht)).found_iff.mp (hseen t ht) ok
      · exact plain_of_no_claims ok (hunseen t ht)
    refine ⟨hplain, ?_⟩
    intro j hj hj'
    simp only [← hpages hplain] at hj hj'
    rw [← short_unique hfull hshort hj hj']
    exact hunseen
  · rintro ⟨hplain, hrecent⟩
    simp only [hpages hplain] at hfull hshort
    refine ⟨?_, hrecent i hfull hshort⟩
    intro t ht
    have hmem := List.mem_of_mem_take ht
    exact (hran t hmem).found_iff.mpr (hplain t hmem)

end Names

/-- Both clients come to an end. Each of them returns every claim of every successful transaction
once, newest first, only if the history is readable. -/
theorem claim_history_complete_iff {cx : Codecs} {p : Platform} {user : Pubkey}
    {pageSize : ℕ → ℕ → ℕ} {rpc : UserRpc} {connection : Connection} (batchSize : Option ℕ)
    (hbatch : 1 ≤ batchSize.getD 100) (hsize : ∀ limit passed, pageSize limit passed ≤ limit)
    (hcodec : ∀ t ∈ history, cx.parseSignature (signatureName cx t) = .ok t.signature)
    (distinct : (history.map ChainTransaction.signature).Nodup)
    (hran : ∀ t ∈ history, Ran config t)
    (hrust : Serves cx (deriveClaimPda p config user).1 history pageSize rpc)
    (hjs : ServesJs cx (deriveClaimPda p config user).1 history pageSize connection) :
    ((∃ all, Returns (getAllClaimHistory cx rpc p config user batchSize) all) ∧
      (Returns (getAllClaimHistory cx rpc p config user batchSize)
          (history.flatMap (claimsIn config ChainTransaction.signature)) ↔
        Readable config history (pageSize (batchSize.getD 100)) (batchSize.getD 100))) ∧
    (∃ all, Returns (getAllClaimHistoryJs connection p config user batchSize) all) ∧
      (Returns (getAllClaimHistoryJs connection p config user batchSize)
          (history.flatMap (claimsIn config (signatureName cx))) ↔
        Readable config history (pageSize (batchSize.getD 100)) (batchSize.getD 100)) := by
  have names : (history.map (signatureName cx)).Nodup := by
    rw [List.nodup_map_iff_inj_on distinct.of_map]
    intro t ht u hu h
    have hsig := (hcodec t ht).symm.trans ((congrArg cx.parseSignature h).trans (hcodec u hu))
    exact List.inj_on_of_nodup_map distinct ht hu (Except.ok.inj hsig)
  constructor
  · exact returns_iff (getClaimHistory_reads hrust hcodec) (hsize _) hbatch distinct hran
  · exact returns_iff (getClaimHistoryJs_reads hjs) (hsize _) hbatch names hran

section Sample

open BridgeData InstructionCodec LocalCluster

def sampleConfig : ManualClaimClientConfig :=
  ⟨MANUAL_CLAIM_PROGRAM_ID, DOGE_BRIDGE_PROGRAM_ID, bridgeState⟩

def claimData : Bytes :=
  genAlignedInstruction MC_MANUAL_CLAIM_TRANSACTION_DESCRIMINATOR
    (ManualClaimInstruction.pod.encode sampleClaim)

def claimTransaction (signature : Signature) : VersionedTransaction where
  signatures := [signature]
  message := ⟨1, [operatorKey, MANUAL_CLAIM_PROGRAM_ID], [⟨1, [], claimData⟩], []⟩

def claimed : ChainTransaction where
  signature := Vector.replicate 64 1
  slot := 7
  blockTime := some 0
  transaction := claimTransaction (Vector.replicate 64 1)
  loadedKeys := []
  err := none
  inner := [[]]
  ran _ := rfl

def resent : ChainTransaction where
  signature := Vector.replicate 64 2
  slot := 8
  blockTime := some 1
  transaction := claimTransaction (Vector.replicate 64 2)
  loadedKeys := []
  err := some "custom program error"
  inner := []
  ran h := by cases h

def sampleHistory : List ChainTransaction := [resent, claimed]

def sampleCodecs : Codecs where
  parseSignature name := .ok (Vector.replicate 64 (if name = "claimed" then 1 else 2))
  base64 name := .ok [if name = "claimed" then 1 else 2]
  base58 _ := .error "invalid"
  bincode bytes := .ok (claimTransaction (Vector.replicate 64 (bytes.headD 0)))
  serialize _ := []
  verify _ _ _ := true
  showPubkey _ := ""
  showSignature signature := if signature = Vector.replicate 64 1 then "claimed" else "resent"

def reported (t : ChainTransaction) : EncodedConfirmedTransaction :=
  ⟨t.slot, t.blockTime, .binary (signatureName sampleCodecs t), some ⟨t.err, none⟩⟩

def sampleRpc : UserRpc where
  getSignaturesForAddress _ query := .ok
    (((since ChainTransaction.signature sampleHistory query.beforeSignature).take query.limit).map
      (signatureInfo sampleCodecs))
  getTransaction signature :=
    .ok (reported (if signature = Vector.replicate 64 1 then claimed else resent))

def sampleConnection : Connection where
  getSignaturesForAddress _ before limit := .ok
    (((since (signatureName sampleCodecs) sampleHistory before).take limit).map
      (signatureInfo sampleCodecs))
  getTransaction name := .ok (some
    (if name = "claimed" then claimed.transaction.message else resent.transaction.message))

theorem sample_serves : Serves sampleCodecs (deriveClaimPda platform sampleConfig operatorKey).1
    sampleHistory (fun limit _ => limit) sampleRpc where
  lists := by
    intro before limit passed h
    simp only [sampleRpc, h, pageAt]
  fetches := by
    simp only [sampleHistory, List.forall_mem_cons]
    refine ⟨⟨_, rfl, ?_⟩, ⟨_, rfl, ?_⟩, List.forall_mem_nil _⟩
    · exact ⟨rfl, rfl, rfl, ⟨_, rfl, rfl⟩, rfl⟩
    · exact ⟨rfl, rfl, rfl, ⟨_, rfl, rfl⟩, rfl⟩

theorem sample_serves_js :
    ServesJs sampleCodecs (deriveClaimPda platform sampleConfig operatorKey).1 sampleHistory
      (fun limit _ => limit) sampleConnection where
  lists := by
    intro before limit passed h
    simp only [sampleConnection, h, pageAt]
  fetches := by
    simp only [sampleHistory, List.forall_mem_cons]
    exact ⟨rfl, rfl, List.forall_mem_nil _⟩

theorem sample_codec : ∀ t ∈ sampleHistory,
    sampleCodecs.parseSignature (signatureName sampleCodecs t) = .ok t.signature := by
  simp only [sampleHistory, List.forall_mem_cons]
  exact ⟨rfl, rfl, List.forall_mem_nil _⟩

theorem sample_ran : ∀ t ∈ sampleHistory, Ran sampleConfig t := by
  simp only [sampleHistory, List.forall_mem_cons]
  refine ⟨⟨?_, ?_⟩, ⟨?_, ?_⟩, List.forall_mem_nil _⟩
  · intro h
    cases h
  · intro h
    cases h
  · intro _ ix hix
    rw [List.mem_singleton.mp hix]
    decide
  · intro _ ix hix _
    rw [List.mem_singleton.mp hix]
    exact ⟨sampleClaim, rfl⟩

theorem claimed_claimIn : claimIn sampleConfig claimed ⟨1, [], claimData⟩ = some sampleClaim := by
  have hprogram : claimed.keys[(1 : UInt8).toNat]? = some sampleConfig.manualClaimProgramId := rfl
  have hdata : claimData.drop 8 = ManualClaimInstruction.pod.encode sampleClaim := rfl
  rw [claimIn, if_pos hprogram, hdata, Pod.read_encode]

theorem claimed_claims : claims sampleConfig claimed = [sampleClaim] := by
  have ok : claimed.err = none := rfl
  have hexecuted : claimed.executed = [⟨1, [], claimData⟩] := rfl
  rw [claims, if_pos ok, hexecuted, List.filterMap_cons_some claimed_claimIn]
  rfl

theorem claimed_plain : Plain sampleConfig claimed where
  direct := by
    intro ixs hixs ix hix
    rw [List.mem_singleton.mp hixs] at hix
    cases hix
  single := List.length_filterMap_le _ _
  tagged := by
    intro ix hix _
    rw [List.mem_singleton.mp hix]
    rfl

/-- With the default page size both clients find the claim. -/
theorem resent_claim_found :
    Returns (getAllClaimHistory sampleCodecs sampleRpc platform sampleConfig operatorKey none)
        (sampleHistory.flatMap (claimsIn sampleConfig ChainTransaction.signature)) ∧
      Returns (getAllClaimHistoryJs sampleConnection platform sampleConfig operatorKey none)
        (sampleHistory.flatMap (claimsIn sampleConfig (signatureName sampleCodecs))) := by
  have hreadable : Readable sampleConfig sampleHistory (fun _ => 100) 100 := by
    constructor
    · simp only [sampleHistory, List.forall_mem_cons]
      refine ⟨?_, fun _ => claimed_plain, List.forall_mem_nil _⟩
      intro h
      cases h
    · intro i _ _ t ht
      have hend : sampleHistory.length ≤ i * 100 + 100 := by
        change 2 ≤ i * 100 + 100
        omega
      rw [List.drop_eq_nil_of_le hend] at ht
      cases ht
  obtain ⟨⟨-, hrust⟩, -, hjs⟩ := claim_history_complete_iff none (by decide) (fun _ _ => le_rfl)
    sample_codec (by decide) sample_ran sample_serves sample_serves_js
  exact ⟨hrust.mpr hreadable, hjs.mpr hreadable⟩

/-- A client that asks for one transaction at a time stops at the failed one. -/
theorem claim_behind_resent_missed :
    Serves sampleCodecs (deriveClaimPda platform sampleConfig operatorKey).1 sampleHistory
        (fun limit _ => limit) sampleRpc ∧
      ServesJs sampleCodecs (deriveClaimPda platform sampleConfig operatorKey).1 sampleHistory
        (fun limit _ => limit) sampleConnection ∧
      (∀ t ∈ sampleHistory, Ran sampleConfig t) ∧
      claims sampleConfig claimed = [sampleClaim] ∧
      ¬ Returns (getAllClaimHistory sampleCodecs sampleRpc platform sampleConfig operatorKey
          (some 1)) (sampleHistory.flatMap (claimsIn sampleConfig ChainTransaction.signature)) ∧
      ¬ Returns (getAllClaimHistoryJs sampleConnection platform sampleConfig operatorKey (some 1))
          (sampleHistory.flatMap (claimsIn sampleConfig (signatureName sampleCodecs))) := by
  have hmissed : ¬ Readable sampleConfig sampleHistory (fun _ => 1) 1 := by
    intro h
    have hnone := h.recent 0 (fun j hj => absurd hj (Nat.not_lt_zero j)) (by decide) claimed
      (List.mem_singleton_self _)
    rw [claimed_claims] at hnone
    cases hnone
  refine ⟨sample_serves, sample_serves_js, sample_ran, claimed_claims, ?_, ?_⟩
  · intro h
    exact hmissed ((returns_iff (getClaimHistory_reads sample_serves sample_codec)
      (fun _ => le_rfl) le_rfl (by decide) sample_ran).2.mp h)
  · intro h
    exact hmissed ((returns_iff (getClaimHistoryJs_reads sample_serves_js) (fun _ => le_rfl)
      le_rfl (by decide) sample_ran).2.mp h)

end Sample

end Complete

end ClaimHistory
