import PsyDogeBridge.ClientRpc

/-! A monitor that polls while transactions arrive. Only the moment at which the node lists
signatures matters for a poll: what arrives while the transactions are fetched could as well
arrive after it. -/
namespace MonitorRuns

open PodLayout CheckedSteps SolanaRuntime PolledLog ClientRpc

structure State (μ : Type) where
  chain : List ChainTransaction
  reader : Reader Signature μ

inductive Label (μ : Type) where
  | arrive (t : ChainTransaction)
  | poll (rpc : Rpc) (send : μ → Bool)

variable {μ : Type} (cx : Codecs) (m : Monitor μ) (ordinary : ChainTransaction → Prop)
  (events : ChainTransaction → List μ) (chain : List ChainTransaction) (start : Option Signature)
  (s : State μ) (rpc : Rpc) (send : μ → Bool)

def State.poll : State μ :=
  let p := m.pollOnce cx rpc send s.reader.checkpoint
  ⟨s.chain, p.afterSignature, s.reader.delivered ++ p.sent⟩

/-- No two transactions have the same signature, and the node that is polled is honest, but any
of its answers can be an error. -/
inductive MonitorStep : State μ → Label μ → State μ → Prop where
  | arrive {s : State μ} {t : ChainTransaction}
      (fresh : ∀ u ∈ s.chain, u.signature ≠ t.signature) :
      MonitorStep s (.arrive t) ⟨s.chain ++ [t], s.reader⟩
  | poll {s : State μ} {rpc : Rpc} {send : μ → Bool}
      (lists : ListsChain cx m.address s.chain rpc) (reports : ReportsChain cx s.chain rpc) :
      MonitorStep s (.poll rpc send) (s.poll cx m rpc send)

def unseen : List ChainTransaction :=
  since ChainTransaction.signature (listed m.address s.chain) s.reader.checkpoint

def answer : Except BridgeError (List String) :=
  rpc.getSignaturesForAddress m.address ⟨none, s.reader.checkpoint, m.batchSize⟩

/-- The poll has room for all that is new, every fetch succeeds and the receiver is there. -/
structure Complete : Prop where
  few : (unseen m s).length ≤ m.batchSize
  fetched : ∀ t ∈ unseen m s, ∃ r, rpc.getTransaction t.signature = .ok r
  received : ∀ event, send event = true

/-- A poll whose query fails may be anything. -/
def Undisturbed : Label μ → Prop
  | .arrive t => ordinary t
  | .poll rpc send => (∃ names, answer m s rpc = .ok names) → Complete m s rpc send

def Reads (t : ChainTransaction) : Prop :=
  ∀ rpc r, rpc.getTransaction t.signature = .ok r → Reports cx t r →
    ∃ event, m.parse rpc t.signature = .ok event ∧ event.toList = events t

abbrev UndisturbedRun : State μ → List (Label μ) → State μ → Prop :=
  Run fun s label s' => MonitorStep cx m s label s' ∧ Undisturbed m ordinary s label

/-- The chain when the monitor starts: it lists the transaction at which the monitor starts. -/
structure Startable : Prop where
  distinct : (chain.map ChainTransaction.signature).Nodup
  origin : Marks ChainTransaction.signature (listed m.address chain) start
  ordinary : ∀ t ∈ since ChainTransaction.signature chain start, ordinary t

/-- After every answered poll of an undisturbed run the monitor has delivered the events of all
transactions since the start, each once and in the order of the chain. A poll that finds nothing
new is one that is answered with no signatures. -/
def Delivers : Prop :=
  ∀ (chain : List ChainTransaction) (start : Option Signature) (labels : List (Label μ))
    (s s' : State μ) (rpc : Rpc) (send : μ → Bool) (names : List String),
    Startable m ordinary chain start →
    UndisturbedRun cx m ordinary ⟨chain, start, []⟩ labels s →
    MonitorStep cx m s (.poll rpc send) s' → Undisturbed m ordinary s (.poll rpc send) →
    answer m s rpc = .ok names →
    s'.reader.delivered = (since ChainTransaction.signature s'.chain start).flatMap events

/-- What holds in every state of an undisturbed run. -/
structure Followed : Prop where
  distinct : (s.chain.map ChainTransaction.signature).Nodup
  ordinary : ∀ t ∈ since ChainTransaction.signature s.chain start, ordinary t
  caught : Caught ChainTransaction.signature events start (listed m.address s.chain) s.reader

variable {cx m ordinary events chain start s rpc send} {names : List String}
  {ts : List ChainTransaction} {t : ChainTransaction}

theorem deliver_all {parse : Signature → Except BridgeError (Option μ)}
    (hnames : names.map cx.parseSignature = ts.map fun t => .ok t.signature)
    (hparse : ∀ t ∈ ts, ∃ event, parse t.signature = .ok event ∧ event.toList = events t)
    (received : ∀ event, send event = true) :
    deliver cx parse send names = (ts.flatMap events, .ok ()) := by
  induction ts generalizing names with
  | nil =>
    rw [List.map_nil, List.map_eq_nil_iff] at hnames
    subst hnames
    rfl
  | cons t ts ih =>
    obtain ⟨name, names, rfl, hname, hrest⟩ := List.map_eq_cons_iff.mp hnames
    obtain ⟨event, hevent, hlist⟩ := hparse t List.mem_cons_self
    have ih' := ih hrest fun u hu => hparse u (List.mem_cons_of_mem _ hu)
    rw [List.flatMap_cons, ← hlist]
    cases event with
    | none => simp [deliver, hname, hevent, ih']
    | some event => simp [deliver, hname, hevent, ih', received]

namespace Followed

variable {s' : State μ}

section

variable (h : Followed m ordinary events start s)
include h

theorem since_start (ht : t ∈ unseen m s) :
    t ∈ since ChainTransaction.signature s.chain start := by
  obtain ⟨seen, hsplit, -⟩ := h.caught.seen
  have hmem : t ∈ since ChainTransaction.signature (listed m.address s.chain) start := by
    rw [hsplit]
    exact List.mem_append_right _ ht
  rw [listed, since_filter h.distinct h.caught.origin] at hmem
  exact List.mem_of_mem_filter hmem

theorem arrive (fresh : ∀ u ∈ s.chain, u.signature ≠ t.signature) (ht : ordinary t) :
    Followed m ordinary events start ⟨s.chain ++ [t], s.reader⟩ := by
  have horigin : Marks ChainTransaction.signature s.chain start := by
    intro k hk
    obtain ⟨u, hu, hkey⟩ := h.caught.origin k hk
    exact ⟨u, List.mem_of_mem_filter hu, hkey⟩
  refine ⟨?_, ?_, ?_⟩
  · rw [List.map_append, List.nodup_append]
    refine ⟨h.distinct, List.nodup_singleton _, ?_⟩
    intro a ha b hb
    obtain ⟨u, hu, rfl⟩ := List.mem_map.mp ha
    rw [List.map_singleton, List.mem_singleton] at hb
    exact hb ▸ fresh u hu
  · rw [since_append horigin]
    intro u hu
    rcases List.mem_append.mp hu with hu | hu
    · exact h.ordinary u hu
    · exact List.mem_singleton.mp hu ▸ ht
  · rw [listed, List.filter_append]
    exact h.caught.grow _

theorem poll (reads : ∀ t, ordinary t → Reads cx m events t)
    (lists : ListsChain cx m.address s.chain rpc) (reports : ReportsChain cx s.chain rpc)
    (answered : answer m s rpc = .ok names) (complete : Complete m s rpc send) :
    Followed m ordinary events start (s.poll cx m rpc send) ∧
      unseen m (s.poll cx m rpc send) = [] := by
  have hpage := lists _ _ _ answered
  unfold answer at answered
  cases names with
  | nil =>
    have hsame : s.poll cx m rpc send = s := by simp [State.poll, Monitor.pollOnce, answered]
    rw [hsame]
    rw [page_of_le complete.few, List.map_nil, eq_comm, List.map_eq_nil_iff,
      List.reverse_eq_nil_iff] at hpage
    exact ⟨h, hpage⟩
  | cons newest older =>
    obtain ⟨t, rest, hts, hnewest, -⟩ := List.map_eq_cons_iff.mp hpage.symm
    have hparse : ∀ u ∈ (t :: rest).reverse,
        ∃ event, m.parse rpc u.signature = .ok event ∧ event.toList = events u := by
      intro u hu
      have hunseen : u ∈ unseen m s := by
        rw [← hts, page_of_le complete.few, List.reverse_reverse] at hu
        exact hu
      obtain ⟨r, hr⟩ := complete.fetched u hunseen
      have hchain : u ∈ s.chain := (since_suffix _ _ _).subset (h.since_start hunseen)
      obtain ⟨u', hu', hsig, hreports⟩ := reports _ _ hr
      rw [List.inj_on_of_nodup_map h.distinct hu' hchain hsig] at hreports
      exact reads u (h.ordinary u (h.since_start hunseen)) rpc r hr hreports
    have hnames : (newest :: older).reverse.map cx.parseSignature =
        (t :: rest).reverse.map fun t => .ok t.signature := by
      rw [List.map_reverse, hpage, hts, List.map_reverse]
    have hstate : s.poll cx m rpc send = ⟨s.chain, some t.signature,
        s.reader.delivered ++ (t :: rest).reverse.flatMap events⟩ := by
      simp only [State.poll, Monitor.pollOnce, answered, ← hnewest,
        deliver_all hnames hparse complete.received]
    have hdistinct : ((listed m.address s.chain).map ChainTransaction.signature).Nodup :=
      h.distinct.sublist (List.filter_sublist.map _)
    obtain ⟨hcaught, hnone⟩ := h.caught.read hdistinct complete.few hts
    rw [hstate]
    exact ⟨⟨h.distinct, h.ordinary, hcaught⟩, hnone⟩

theorem step (reads : ∀ t, ordinary t → Reads cx m events t) {label : Label μ}
    (hs : MonitorStep cx m s label s') (hu : Undisturbed m ordinary s label) :
    Followed m ordinary events start s' := by
  cases hs with
  | arrive fresh => exact h.arrive fresh hu
  | @poll rpc send lists reports =>
    cases hq : answer m s rpc with
    | ok names => exact (h.poll reads lists reports hq (hu ⟨names, hq⟩)).1
    | error e =>
      have hsame : s.poll cx m rpc send = s := by
        unfold answer at hq
        simp [State.poll, Monitor.pollOnce, hq]
      rwa [hsame]

end

end Followed

theorem followed_of_run {labels : List (Label μ)} (reads : ∀ t, ordinary t → Reads cx m events t)
    (hstart : Startable m ordinary chain start)
    (run : UndisturbedRun cx m ordinary ⟨chain, start, []⟩ labels s) :
    Followed m ordinary events start s := by
  refine run.invariant (P := Followed m ordinary events start) ?_ ?_
  · intro s label s' h hs
    exact h.step reads hs.1 hs.2
  · exact ⟨hstart.distinct, hstart.ordinary, .initial hstart.origin⟩

theorem flatMap_listed {address : Pubkey} (h : ∀ t ∈ ts, address ∉ t.keys → events t = []) :
    (listed address ts).flatMap events = ts.flatMap events := by
  induction ts with
  | nil => rfl
  | cons t ts ih =>
    have ih' := ih fun u hu => h u (List.mem_cons_of_mem _ hu)
    unfold listed at ih' ⊢
    by_cases ht : address ∈ t.keys
    · simp [ht, ih']
    · simp [ht, ih', h t List.mem_cons_self ht]

theorem delivers (reads : ∀ t, ordinary t → Reads cx m events t)
    (hlisted : ∀ t, ordinary t → m.address ∉ t.keys → events t = []) :
    Delivers cx m ordinary events := by
  intro chain start labels s s' rpc send names hstart run hs hu answered
  have h := followed_of_run reads hstart run
  cases hs with
  | poll lists reports =>
    obtain ⟨h', hnone⟩ := h.poll reads lists reports answered (hu ⟨names, answered⟩)
    rw [h'.caught.complete hnone, listed, since_filter h'.distinct h'.caught.origin]
    apply flatMap_listed
    intro t ht
    exact hlisted t (h'.ordinary t ht)

section OneTransaction

variable {t : ChainTransaction} {data : Bytes} {up : Bool}

/-- Codecs under which every string stands for the one transaction, or for the data of its inner
instructions. Its required signers have signed. -/
def codecs (t : ChainTransaction) (data : Bytes) : Codecs where
  parseSignature _ := .ok t.signature
  base64 _ := .ok []
  base58 _ := .ok data
  bincode _ := .ok t.transaction
  serialize _ := []
  verify _ pubkey _ := (t.transaction.message.staticAccountKeys.take
    t.transaction.message.numRequiredSignatures.toNat).any fun k => k = pubkey
  showPubkey _ := ""
  showSignature _ := ""

def report (t : ChainTransaction) : EncodedConfirmedTransaction where
  slot := t.slot
  blockTime := t.blockTime
  transaction := .binary ""
  statusMeta := some ⟨t.err, some ((t.inner.filter (· ≠ [])).map
    (·.map fun ix => .compiled ix.programIdIndex ix.accounts ""))⟩

def node (t : ChainTransaction) (up : Bool) : Rpc where
  getSignaturesForAddress _ query :=
    .ok (if query.untilSignature = none ∧ 0 < query.limit then [""] else [])
  getTransaction sig := if up ∧ sig = t.signature then .ok (report t) else .error (.rpc "timeout")

theorem report_reports (h : ∀ ixs ∈ t.inner, ∀ ix ∈ ixs, ix.data = data) :
    Reports (codecs t data) t (report t) := by
  refine ⟨rfl, rfl, rfl, ⟨_, rfl, rfl⟩, ?_⟩
  change ((t.inner.filter (· ≠ [])).map _).map _ = _
  rw [List.map_map]
  apply List.map_congr_left
  intro ixs hixs
  rw [Function.comp_apply, List.map_map]
  apply List.map_congr_left
  intro ix hix
  have hdata := h ixs (List.mem_of_mem_filter hixs) ix hix
  subst hdata
  rfl

theorem node_reports (h : ∀ ixs ∈ t.inner, ∀ ix ∈ ixs, ix.data = data) :
    ReportsChain (codecs t data) [t] (node t up) := by
  intro sig r hr
  unfold node at hr
  dsimp only at hr
  split at hr
  · next hsig =>
    cases hr
    exact ⟨t, List.mem_singleton_self t, hsig.2.symm, report_reports h⟩
  · cases hr

theorem node_lists {address : Pubkey} (ht : address ∈ t.keys) :
    ListsChain (codecs t data) address [t] (node t up) := by
  intro checkpoint limit names hnames
  have hlisted : listed address [t] = [t] := by simp [listed, ht]
  cases hnames
  rw [hlisted]
  cases checkpoint with
  | none =>
    cases limit with
    | zero => rfl
    | succ limit => simp [codecs, page, since]
  | some k =>
    by_cases hk : t.signature = k
    · simp [page, since, hk]
    · simp [page, since, hk]

end OneTransaction

end MonitorRuns
