import PsyDogeBridge.BufferHistory
import PsyDogeBridge.BacklogInvariant
import PsyDogeBridge.HistorySync
import PsyDogeBridge.TxoBuffer

/-! The transactions that fill the two buffers of an operator up to a block update, and what the
buffers then hold. -/
namespace OperatorHistory

open PodLayout CheckedSteps SolanaRuntime BridgeData MintGroups BridgeCalls BridgeProcessor
  ClientRpc HistorySync BufferSteps UploadedGroups BufferHistory TxoBuffer

structure Watched where
  operator : Pubkey
  mintBuffer : Pubkey
  txoBuffer : Pubkey

variable {env : BridgeEnv} {w : Watched} {t : ChainTransaction} {l l' : Ledger}
  {ix : CompiledInstruction}

section Instructions

def Calls (keys : List Pubkey) (ix : CompiledInstruction) (program account : Pubkey) : Prop :=
  keys[ix.programIdIndex.toNat]? = some program ∧ accountAt keys ix.accounts 0 = some account

instance (keys : List Pubkey) (ix : CompiledInstruction) (program account : Pubkey) :
    Decidable (Calls keys ix program account) := inferInstanceAs (Decidable (_ ∧ _))

def mintOp (w : Watched) (keys : List Pubkey) (ix : CompiledInstruction) : Option BufferOp :=
  if Calls keys ix PENDING_MINT_BUFFER_BUILDER_PROGRAM_ID w.mintBuffer then
    BufferOp.ofData ix.data
  else none

def txoOp (w : Watched) (keys : List Pubkey) (ix : CompiledInstruction) : Option TxoOp :=
  if Calls keys ix TXO_BUFFER_BUILDER_PROGRAM_ID w.txoBuffer then TxoOp.ofData ix.data else none

def Names (keys : List Pubkey) (ix : CompiledInstruction) (inv : Invocation) : Prop :=
  keys[ix.programIdIndex.toNat]? = some inv.programId ∧
    ix.accounts.map (fun i => keys[i.toNat]?) = inv.accounts.map fun a => some a.key

/-- One instruction that ran. A buffer changes only if its program is called on it. -/
structure Ran (env : BridgeEnv) (w : Watched) (t : ChainTransaction) (l : Ledger)
    (ix : CompiledInstruction) (l' : Ledger) : Prop where
  mint : if Calls t.keys ix PENDING_MINT_BUFFER_BUILDER_PROGRAM_ID w.mintBuffer then
      ∃ inv, Names t.keys ix inv ∧ Accepts env.platform env.crypto l ⟨inv, ix.data⟩ l'
    else l' w.mintBuffer = l w.mintBuffer
  txo : if Calls t.keys ix TXO_BUFFER_BUILDER_PROGRAM_ID w.txoBuffer then
      ∃ inv, Names t.keys ix inv ∧ TxoBuffer.processInstruction env.platform inv l ix.data = .ok l'
    else l' w.txoBuffer = l w.txoBuffer

/-- A transaction that failed changed nothing. -/
def Processed (env : BridgeEnv) (w : Watched) (l : Ledger) (t : ChainTransaction) (l' : Ledger) :
    Prop :=
  if t.err = none then Run (Ran env w t) l t.executed l' else l' = l

def mintOps (w : Watched) (t : ChainTransaction) : List BufferOp :=
  if t.err = none then t.executed.filterMap (mintOp w t.keys) else []

def txoOps (w : Watched) (t : ChainTransaction) : List TxoOp :=
  if t.err = none then t.executed.filterMap (txoOp w t.keys) else []

theorem storage_of_calls {program account : Pubkey} {inv : Invocation} {keys : List Pubkey}
    (h : Calls keys ix program account) (hn : Names keys ix inv) :
    inv.programId = program ∧ inv.accounts.head?.map (·.key) = some account := by
  refine ⟨Option.some.inj (hn.1.symm.trans h.1), ?_⟩
  have hhead := congrArg List.head? hn.2
  have haccount := h.2
  rw [List.head?_map, List.head?_map] at hhead
  rw [accountAt, ← List.head?_eq_getElem?] at haccount
  obtain ⟨i, hi, hkey⟩ := Option.bind_eq_some_iff.mp haccount
  rw [hi] at hhead
  obtain ⟨a, ha, heq⟩ := Option.map_eq_some_iff.mp hhead.symm
  rw [ha]
  exact heq.trans hkey

def MintStep (env : BridgeEnv) (a : Account) (op : BufferOp) (a' : Account) : Prop :=
  ∃ signs d, Performs env.crypto signs op d a'.data ∧ (a.data = d ∨ a.data = [])

def TxoStep (d : Bytes) (op : TxoOp) (d' : Bytes) : Prop := Changes d d' op

theorem Ran.mintStep (h : Ran env w t l ix l') :
    Stutters (MintStep env) (l w.mintBuffer) (mintOp w t.keys ix) (l' w.mintBuffer) := by
  have hmint := h.mint
  unfold mintOp
  split at hmint
  · next hcalls =>
    obtain ⟨inv, hnames, -, ran⟩ := hmint
    obtain ⟨storage, rest, op, haccounts, hop, d, d', hw, hperforms⟩ :=
      processInstruction_performs ran
    have hstorage := (storage_of_calls hcalls hnames).2
    rw [haccounts] at hstorage
    have hkey : storage.key = w.mintBuffer := Option.some.inj hstorage
    rw [hkey] at hw
    rw [if_pos hcalls, hop]
    refine ⟨inv.signs, d, by rw [hw.data]; exact hperforms, ?_⟩
    rcases hw.before with hb | ⟨hb, -⟩
    · exact .inl (by rw [hb])
    · exact .inr (by rw [hb])
  · next hcalls =>
    rw [if_neg hcalls]
    exact hmint

theorem Ran.txoStep (h : Ran env w t l ix l') :
    Stutters TxoStep (l w.txoBuffer).data (txoOp w t.keys ix) (l' w.txoBuffer).data := by
  have htxo := h.txo
  unfold txoOp
  split at htxo
  · next hcalls =>
    obtain ⟨inv, hnames, ran⟩ := htxo
    obtain ⟨contract, rest, op, haccounts, hop, hoperates⟩ := processInstruction_operates ran
    have hstorage := (storage_of_calls hcalls hnames).2
    rw [haccounts] at hstorage
    have hkey : contract.key = w.txoBuffer := Option.some.inj hstorage
    rw [hkey] at hoperates
    rw [if_pos hcalls, hop]
    exact hoperates.moves.changes
  · next hcalls =>
    rw [if_neg hcalls]
    exact congrArg Account.data htxo

variable {ixs : List CompiledInstruction} {ts : List ChainTransaction}

theorem mint_run (h : Run (Ran env w t) l ixs l') :
    Run (MintStep env) (l w.mintBuffer) (ixs.filterMap (mintOp w t.keys)) (l' w.mintBuffer) := by
  obtain ⟨a, rfl, run⟩ := Run.simulate (R := fun l a => a = l w.mintBuffer)
    (fun _ _ _ _ ha hran => ⟨_, rfl, ha ▸ hran.mintStep⟩) h rfl
  exact run

theorem txo_run (h : Run (Ran env w t) l ixs l') :
    Run TxoStep (l w.txoBuffer).data (ixs.filterMap (txoOp w t.keys)) (l' w.txoBuffer).data := by
  obtain ⟨a, rfl, run⟩ := Run.simulate (R := fun l d => d = (l w.txoBuffer).data)
    (fun _ _ _ _ ha hran => ⟨_, rfl, ha ▸ hran.txoStep⟩) h rfl
  exact run

theorem Processed.mint_run (h : Processed env w l t l') :
    Run (MintStep env) (l w.mintBuffer) (mintOps w t) (l' w.mintBuffer) := by
  unfold Processed at h
  unfold mintOps
  split at h
  · next hok =>
    rw [if_pos hok]
    exact OperatorHistory.mint_run h
  · next hok =>
    rw [if_neg hok, h]
    exact .nil _

theorem Processed.txo_run (h : Processed env w l t l') :
    Run TxoStep (l w.txoBuffer).data (txoOps w t) (l' w.txoBuffer).data := by
  unfold Processed at h
  unfold txoOps
  split at h
  · next hok =>
    rw [if_pos hok]
    exact OperatorHistory.txo_run h
  · next hok =>
    rw [if_neg hok, h]
    exact .nil _

end Instructions

section Mints

variable {ops before after : List BufferOp} {a a' : Account} {n : UInt16}

def insertsOf (ops : List BufferOp) : List (UInt16 × Bytes) :=
  ops.filterMap fun
    | .insert g x => some (g, x)
    | _ => none

def logOf (ops : List BufferOp) : Log := ops.foldl Log.after fun _ => []

def Adds : BufferOp → Prop
  | .resize | .insert _ _ => True
  | _ => False

theorem logOf_snoc (ops : List BufferOp) (op : BufferOp) :
    logOf (ops ++ [op]) = (logOf ops).after op := by
  rw [logOf, List.foldl_append]
  rfl

theorem insertsOf_append (ops ops' : List BufferOp) :
    insertsOf (ops ++ ops') = insertsOf ops ++ insertsOf ops' :=
  List.filterMap_append

structure Filled (c : Crypto) (d : Bytes) (ops : List BufferOp) : Prop where
  long : 72 ≤ d.length
  recorded : Recorded c d (logOf ops)
  inside : ∀ e ∈ insertsOf ops, e.1.toNat < groupsOf d

variable {d d' : Bytes} {signs : Pubkey → Prop} {c : Crypto}

theorem Performs.filled (h : Performs c signs (.reinit n) d d') : Filled c d' [] := by
  have hcleared := Performs.cleared h
  obtain ⟨-, heq⟩ := Performs.reinit_eq h
  refine ⟨?_, ⟨⟨fun _ => none, hcleared.nothing, fun _ _ => rfl⟩, fun _ => hcleared.init⟩, ?_⟩
  · rw [heq, reinited_length h.long n]
    exact (reinitLen_bounds h.long n).1
  · intro e he
    cases he

theorem Performs.adds {op : BufferOp} (hash : ∀ g x, op = .insert g x → c.sha256 x ≠ zeroBytes)
    (h : Performs c signs op d d') (hop : Adds op) (hf : Filled c d ops) :
    Filled c d' (ops ++ [op]) := by
  have hrecorded : Recorded c d' (logOf (ops ++ [op])) := by
    rw [logOf_snoc]
    exact Performs.recorded hash h hf.recorded
  cases h with
  | resize hd hl ht =>
    refine ⟨Nat.le_trans hd (le_grown_length _ _), hrecorded, fun e he => ?_⟩
    rw [insertsOf_append, List.mem_append] at he
    rw [groupsOf, mintBufferHeader_grown _ hd]
    rcases he with he | he
    · exact hf.inside e he
    · cases he
  | @insert _ d₁ _ g x hd hd₁ hi =>
    obtain ⟨up, hup, -⟩ := hf.recorded.filled
    obtain ⟨-, hins, heq, hgroups⟩ := insert_uploads hup hd hd₁ hi
    have hgroups' : groupsOf d' = groupsOf d := by
      rw [heq, groupsOf, inserted_header hins]
      exact hgroups
    refine ⟨?_, hrecorded, fun e he => ?_⟩
    · rw [heq, inserted_length hins, hd₁]
      exact Nat.le_trans hd (le_grown_length _ _)
    · rw [insertsOf_append, List.mem_append] at he
      rw [hgroups']
      rcases he with he | he
      · exact hf.inside e he
      · obtain rfl := List.mem_singleton.mp he
        exact hgroups ▸ hins.group
  | _ => exact hop.elim

theorem run_filled (run : Run (MintStep env) a (before ++ .reinit n :: after) a')
    (hadds : ∀ op ∈ after, Adds op)
    (hash : ∀ e ∈ insertsOf after, env.crypto.sha256 e.2 ≠ zeroBytes) :
    Filled env.crypto a'.data after := by
  obtain ⟨a₁, -, hrest⟩ := run.split
  obtain ⟨a₂, hreinit, hafter⟩ := hrest.head
  obtain ⟨signs, d, hperforms, -⟩ := hreinit
  have hops : ∀ op ∈ after, Adds op ∧ ∀ g x, op = .insert g x → env.crypto.sha256 x ≠
      zeroBytes := by
    intro op hop
    refine ⟨hadds op hop, fun g x heq => hash (g, x) ?_⟩
    exact List.mem_filterMap.mpr ⟨op, hop, by rw [heq]⟩
  refine Run.history (P := fun _ ops a => Filled env.crypto a.data ops) (Performs.filled hperforms)
    ?_ (hafter.restrict hops)
  intro ops b op b' _ hf hstep
  obtain ⟨⟨signs, d, hperforms, hd⟩, hop, hnonzero⟩ := hstep
  have hlong := hf.long
  rcases hd with rfl | hempty
  · exact Performs.adds hnonzero hperforms hop hf
  · rw [hempty] at hlong
    cases hlong

end Mints

section Txos

variable {ops : List TxoOp} {op : TxoOp} {d d' : Bytes} {n : ℕ}

def writesOf (ops : List TxoOp) : List Write :=
  ops.filterMap fun
    | .write _ offset x => some ⟨offset, x⟩
    | _ => none

def byteAt (e : Write) (i : ℕ) : Option UInt8 :=
  if e.1.toNat ≤ i then e.2[i - e.1.toNat]? else none

theorem byteAt_some {e : Write} {i : ℕ} {b : UInt8} (h : byteAt e i = some b) :
    e.1.toNat ≤ i ∧ i < e.1.toNat + e.2.length ∧ e.2[i - e.1.toNat]? = some b := by
  unfold byteAt at h
  split at h
  · have hlt := (List.getElem?_eq_some_iff.mp h).1
    exact ⟨by assumption, by omega, h⟩
  · cases h

/-- Two writes of one batch: they do not write different bytes to one place, and at one offset they
are the same. -/
structure Agree (e e' : Write) : Prop where
  offset : e.1 = e'.1 → e = e'
  bytes : ∀ i a b, byteAt e i = some a → byteAt e' i = some b → a = b

structure Fits (n : ℕ) (ops : List TxoOp) : Prop where
  lens : ∀ b m, .setLen b m ∈ ops → m.toNat = n
  inside : ∀ e ∈ writesOf ops, e.1.toNat + e.2.length ≤ n
  agree : ∀ e ∈ writesOf ops, ∀ e' ∈ writesOf ops, Agree e e'

theorem writesOf_append (ops ops' : List TxoOp) :
    writesOf (ops ++ ops') = writesOf ops ++ writesOf ops' :=
  List.filterMap_append

theorem Fits.init (h : Fits n (ops ++ [op])) : Fits n ops := by
  obtain ⟨lens, inside, agree⟩ := h
  rw [writesOf_append] at inside agree
  exact ⟨fun b m hm => lens b m (List.mem_append_left _ hm),
    fun e he => inside e (List.mem_append_left _ he),
    fun e he e' he' => agree e (List.mem_append_left _ he) e' (List.mem_append_left _ he')⟩

structure Stored (n : ℕ) (ops : List TxoOp) (d : Bytes) : Prop where
  bytes : ∀ e ∈ writesOf ops, ∀ i b, byteAt e i = some b → d[TxoBuffer.HEADER_SIZE + i]? = some b
  sized : (∃ b m, .setLen b m ∈ ops) → dataSizeOf d = n ∧ TxoBuffer.HEADER_SIZE + n ≤ d.length

theorem Stored.snoc (h : Stored n ops d) (hchanges : Changes d d' op)
    (hfits : Fits n (ops ++ [op])) : Stored n (ops ++ [op]) d' := by
  cases op with
  | setup =>
    obtain ⟨hlen, hsize, hbytes⟩ := hchanges
    constructor
    · intro e he i b hb
      rw [writesOf_append] at he
      rcases List.mem_append.mp he with he | he
      · exact hbytes _ b (h.bytes e he i b hb)
      · cases he
    · rintro ⟨b, m, hm⟩
      rcases List.mem_append.mp hm with hm | hm
      · obtain ⟨hn, hlong⟩ := h.sized ⟨b, m, hm⟩
        exact ⟨(hsize (by omega)).trans hn, by omega⟩
      · cases List.mem_singleton.mp hm
  | setLen b m =>
    obtain ⟨hsize, hlong, hbytes⟩ := hchanges
    have hm : m.toNat = n := hfits.lens b m (by simp)
    rw [hm] at hsize hlong hbytes
    refine ⟨fun e he i b hb => ?_, fun _ => ⟨hsize, hlong⟩⟩
    rw [writesOf_append] at he
    rcases List.mem_append.mp he with he | he
    · have hinside := hfits.init.inside e he
      obtain ⟨-, hlt, -⟩ := byteAt_some hb
      exact hbytes _ (by omega) b (h.bytes e he i b hb)
    · cases he
  | write b offset x =>
    obtain ⟨hlong, hlen, hsize, hbytes⟩ := hchanges
    obtain ⟨-, inside, agree⟩ := hfits
    rw [writesOf_append] at inside agree
    have hnew : (⟨offset, x⟩ : Write) ∈ writesOf ops ++ writesOf [.write b offset x] :=
      List.mem_append_right _ List.mem_cons_self
    have hx : offset.toNat + x.length ≤ n := inside _ hnew
    constructor
    · intro e he i c hc
      rw [writesOf_append] at he
      rw [hbytes]
      split
      · next hi =>
        -- The new write has the byte that was there.
        obtain ⟨a, ha⟩ : ∃ a, x[i - offset.toNat]? = some a :=
          ⟨_, List.getElem?_eq_getElem (by omega)⟩
        rw [(agree e he _ hnew).bytes i c a hc ((if_pos hi.1).trans ha)]
        exact ha
      · next hi =>
        rcases List.mem_append.mp he with he | he
        · exact h.bytes e he i c hc
        · obtain rfl := List.mem_singleton.mp he
          obtain ⟨hle, hlt, -⟩ := byteAt_some hc
          exact absurd ⟨hle, hlt⟩ hi
    · rintro ⟨b', m, hm⟩
      rcases List.mem_append.mp hm with hm | hm
      · obtain ⟨hn, hd⟩ := h.sized ⟨b', m, hm⟩
        exact ⟨(hsize (by omega)).trans hn, by omega⟩
      · cases List.mem_singleton.mp hm

theorem run_stored (run : Run TxoStep d ops d') (hfits : Fits n ops) : Stored n ops d' := by
  refine Run.history (P := fun _ ops d => Fits n ops → Stored n ops d) ?_ ?_ run hfits
  · intro _
    constructor
    · intro e he
      cases he
    · rintro ⟨b, m, hm⟩
      cases hm
  · intro ops d op d' _ hstored hstep hfits
    exact (hstored hfits.init).snoc hstep hfits

end Txos

section Updates

variable {earlier : List ChainTransaction} {before after : List CompiledInstruction}

/-- A block update that the bridge accepts on `l`, in the transaction `t` after the instructions
`before` and after the transactions `earlier`. -/
inductive AcceptedUpdate (env : BridgeEnv) (w : Watched) (earlier : List ChainTransaction)
    (t : ChainTransaction) (before after : List CompiledInstruction) (l : Ledger) : Prop where
  | intro {l₀ l₁ l' : Ledger} {ix : CompiledInstruction} {inv : Invocation} {i : BridgeInstruction}
      {es : List Effect}
      (ordered : ∀ u ∈ earlier, u.slot ≤ t.slot)
      (processed : Run (Processed env w) l₀ earlier l₁)
      (ok : t.err = none)
      (executed : t.executed = before ++ ix :: after)
      (ran : Run (Ran env w t) l₁ before l)
      (names : Names t.keys ix inv)
      (program : inv.programId = DOGE_BRIDGE_PROGRAM_ID)
      (decoded : unpack ix.data = .ok i)
      (update : BacklogSteps.updatesBlocks i)
      (accepted : BridgeProcessor.processInstruction env inv l ix.data = .ok (l', es))
      (mintBuffer : inv.accounts[1]?.map AccountInfo.key = some w.mintBuffer)
      (txoBuffer : inv.accounts[2]?.map AccountInfo.key = some w.txoBuffer)
      (operator : inv.accounts[3]?.map AccountInfo.key = some w.operator) :
      AcceptedUpdate env w earlier t before after l

theorem blockUpdated_locks {inv : Invocation} {fixed : BlockUpdateFixedData}
    {extra : List FinalizedBlockMintTxoInfo} {mintBump txoBump : UInt8} {isReorg : Bool}
    {es : List Effect} {k : Pubkey}
    (h : AcceptedInstructions.BlockUpdated env inv l fixed extra mintBump txoBump isReorg l' es)
    (hk : inv.accounts[1]?.map AccountInfo.key = some k) :
    ∃ locker l₁, BufferLocks.Locks locker l l₁ k := by
  obtain @⟨bridge, mintBuffer, txoBuffer, _, _, _, _, _, st₀, core, l₁, l₂, _, locked, unlocked,
    ha, -, -, -, -, hlock, -, -, -, -, -, -⟩ := h
  rw [ha] at hk
  cases hk
  exact ⟨_, _, BufferLocks.locks_of_calledIf hlock⟩

section

variable (h : AcceptedUpdate env w earlier t before after l)
include h

/-- The update locks the mint buffer, so the buffer is complete. -/
theorem AcceptedUpdate.full :
    72 ≤ (l w.mintBuffer).data.length ∧
      initializedOf (l w.mintBuffer).data = countOf (l w.mintBuffer).data := by
  obtain ⟨-, -, -, -, -, -, -, decoded, update, accepted, mintBuffer, -, -⟩ := h
  obtain ⟨i', hi, haccepted⟩ := AcceptedInstructions.processInstruction_ok.mp accepted
  rw [decoded] at hi
  cases hi
  have hlocks : ∃ locker l₁, BufferLocks.Locks locker l l₁ w.mintBuffer := by
    cases haccepted with
    | blockUpdate h => exact blockUpdated_locks h mintBuffer
    | processReorgBlocks h => exact blockUpdated_locks h mintBuffer
    | _ => exact update.elim
  obtain ⟨locker, l₁, hlocks⟩ := hlocks
  exact ⟨hlocks.long, congrArg UInt16.toNat hlocks.complete⟩

theorem AcceptedUpdate.operator_mem :
    w.operator ∈ t.keys := by
  obtain @⟨l₀, l₁, l', ix, inv, i, es, -, -, -, -, -, names, -, -, -, -, -, -, operator⟩ := h
  have hget := congrArg (fun l => l[3]?) names.2
  simp only [List.getElem?_map] at hget
  obtain ⟨a, ha, hkey⟩ := Option.map_eq_some_iff.mp operator
  rw [ha] at hget
  obtain ⟨i, -, hi⟩ := Option.map_eq_some_iff.mp hget
  rw [← hkey]
  exact List.mem_of_getElem? hi

theorem AcceptedUpdate.runs :
    (∃ a, Run (MintStep env) a (earlier.flatMap (mintOps w) ++ before.filterMap (mintOp w t.keys))
      (l w.mintBuffer)) ∧
    ∃ d, Run TxoStep d (earlier.flatMap (txoOps w) ++ before.filterMap (txoOp w t.keys))
      (l w.txoBuffer).data := by
  obtain ⟨-, processed, -, -, ran, -, -, -, -, -, -, -, -⟩ := h
  exact ⟨⟨_, (Run.flatMap (fun _ _ _ => Processed.mint_run) processed).append (mint_run ran)⟩,
    ⟨_, (Run.flatMap (fun _ _ _ => Processed.txo_run) processed).append (txo_run ran)⟩⟩

theorem AcceptedUpdate.ops :
    mintOps w t = before.filterMap (mintOp w t.keys) ++ after.filterMap (mintOp w t.keys) ∧
      txoOps w t = before.filterMap (txoOp w t.keys) ++ after.filterMap (txoOp w t.keys) := by
  obtain @⟨l₀, l₁, l', ix, inv, i, es, -, -, ok, executed, -, names, program, -, -, -, -, -, -⟩ := h
  have hcalls (p k : Pubkey) (hp : DOGE_BRIDGE_PROGRAM_ID ≠ p) : ¬ Calls t.keys ix p k := by
    intro hc
    have hkey := names.1.symm.trans hc.1
    rw [program] at hkey
    exact hp (Option.some.inj hkey)
  have hmint : mintOp w t.keys ix = none := if_neg (hcalls _ _ (by decide))
  have htxo : txoOp w t.keys ix = none := if_neg (hcalls _ _ (by decide))
  rw [mintOps, txoOps, if_pos ok, if_pos ok, executed, List.filterMap_append,
    List.filterMap_append, List.filterMap_cons_none hmint, List.filterMap_cons_none htxo]
  exact ⟨rfl, rfl⟩

theorem AcceptedUpdate.ordered :
    ∀ u ∈ earlier, u.slot ≤ t.slot := by
  obtain ⟨ordered, -, -, -, -, -, -, -, -, -, -, -, -⟩ := h
  exact ordered

end

end Updates

end OperatorHistory
