import PsyDogeBridge.WithdrawalInputs

/-! What the public inputs of the four kinds of proof determine. The messages that are hashed for
them are concatenations without separators, and the backlog of a reorganisation is a chain of
hashes of any length. -/
namespace PublicInputs

open PodLayout BridgeData MintGroups ProgramState LocalCluster WithdrawalInputs

variable {c : Crypto} {S : Set Bytes}

theorem hashv_inj {parts parts' : List Bytes} (hS : Set.InjOn c.sha256 S)
    (hm : parts.flatten ∈ S) (hm' : parts'.flatten ∈ S)
    (hlen : parts.map List.length = parts'.map List.length) (h : hashv c parts = hashv c parts') :
    parts = parts' :=
  List.eq_iff_flatten_eq.mpr ⟨hS hm hm' h, hlen⟩

def backlogMessages (c : Crypto) (current : QHash256) :
    List FinalizedBlockMintTxoInfo → List Bytes
  | [] => []
  | e :: es =>
    let combined := hashTwoToOne c e.pendingMintsFinalizedHash e.txoOutputListFinalizedHash
    (e.pendingMintsFinalizedHash.toList ++ e.txoOutputListFinalizedHash.toList) ::
      (current.toList ++ combined.toList) ::
      backlogMessages c (hashTwoToOne c current combined) es

def backlogHashFrom (c : Crypto) (current : QHash256) (es : List FinalizedBlockMintTxoInfo) :
    QHash256 :=
  es.foldl (fun cur e => hashTwoToOne c cur
    (hashTwoToOne c e.pendingMintsFinalizedHash e.txoOutputListFinalizedHash)) current

theorem backlogHashFrom_append (current : QHash256) (es : List FinalizedBlockMintTxoInfo)
    (e : FinalizedBlockMintTxoInfo) : backlogHashFrom c current (es ++ [e]) =
      hashTwoToOne c (backlogHashFrom c current es)
        (hashTwoToOne c e.pendingMintsFinalizedHash e.txoOutputListFinalizedHash) := by
  rw [backlogHashFrom, List.foldl_append]
  rfl

theorem backlogMessages_append (current : QHash256) (es : List FinalizedBlockMintTxoInfo)
    (e : FinalizedBlockMintTxoInfo) : backlogMessages c current (es ++ [e]) =
      backlogMessages c current es ++
        [e.pendingMintsFinalizedHash.toList ++ e.txoOutputListFinalizedHash.toList,
          (backlogHashFrom c current es).toList ++ (hashTwoToOne c e.pendingMintsFinalizedHash
            e.txoOutputListFinalizedHash).toList] := by
  induction es generalizing current with
  | nil => rfl
  | cons e' es ih =>
    rw [List.cons_append, backlogMessages, ih]
    rfl

/-- Two backlogs of any lengths with the same hash are the same. The last links are compared
first; a chain that still has links cannot end at the zero that the other one starts from. -/
theorem backlog_inj {es es' : List FinalizedBlockMintTxoInfo} (hS : Set.InjOn c.sha256 S)
    (hz : ∀ m ∈ S, c.sha256 m ≠ zeroBytes) (hm : ∀ m ∈ backlogMessages c zeroBytes es, m ∈ S)
    (hm' : ∀ m ∈ backlogMessages c zeroBytes es', m ∈ S)
    (h : computeBacklogHash c es = computeBacklogHash c es') : es = es' := by
  change backlogHashFrom c zeroBytes es = backlogHashFrom c zeroBytes es' at h
  induction es using List.reverseRecOn generalizing es' with
  | nil =>
    rcases List.eq_nil_or_concat es' with rfl | ⟨fs, f, rfl⟩
    · rfl
    · rw [List.concat_eq_append] at hm' h
      rw [backlogMessages_append] at hm'
      rw [backlogHashFrom_append] at h
      exact absurd h.symm (hz _ (hm' _ (by simp)))
  | append_singleton es e ih =>
    rw [backlogMessages_append] at hm
    rw [backlogHashFrom_append] at h
    rcases List.eq_nil_or_concat es' with rfl | ⟨fs, f, rfl⟩
    · exact absurd h (hz _ (hm _ (by simp)))
    · rw [List.concat_eq_append] at hm' h ⊢
      rw [backlogMessages_append] at hm'
      rw [backlogHashFrom_append] at h
      obtain ⟨hcur, hcombined⟩ := hashTwoToOne_inj hS (hm _ (by simp)) (hm' _ (by simp)) h
      obtain ⟨hmints, htxos⟩ := hashTwoToOne_inj hS (hm _ (by simp)) (hm' _ (by simp)) hcombined
      have hrest := ih (fun m h => hm m (List.mem_append_left _ h))
        (fun m h => hm' m (List.mem_append_left _ h)) hcur
      have hlast : e = f := by
        cases e
        cases f
        simp_all only
      rw [hrest, hlast]

structure BlockTransition where
  previousHeaderHash : QHash256
  newHeaderHash : QHash256
  configParamsHash : QHash256
  custodianWalletConfigHash : QHash256
  deriving DecidableEq

def BlockTransition.publicInputs (c : Crypto) (a : BlockTransition) : QHash256 :=
  getBlockTransitionPublicInputs c a.previousHeaderHash a.newHeaderHash a.configParamsHash
    a.custodianWalletConfigHash

def BlockTransition.parts (c : Crypto) (a : BlockTransition) : List Bytes :=
  [(hashTwoToOne c a.previousHeaderHash a.newHeaderHash).toList, a.configParamsHash.toList,
    a.custodianWalletConfigHash.toList]

def BlockTransition.messages (c : Crypto) (a : BlockTransition) : List Bytes :=
  [a.previousHeaderHash.toList ++ a.newHeaderHash.toList, (a.parts c).flatten]

structure ReorgTransition where
  previousHeaderHash : QHash256
  newHeaderHash : QHash256
  backlogTxoMints : List FinalizedBlockMintTxoInfo
  configParamsHash : QHash256
  custodianWalletConfigHash : QHash256
  deriving DecidableEq

def ReorgTransition.publicInputs (c : Crypto) (a : ReorgTransition) : QHash256 :=
  getReorgBlockTransitionPublicInputs c a.previousHeaderHash a.newHeaderHash a.backlogTxoMints
    a.configParamsHash a.custodianWalletConfigHash

def ReorgTransition.parts (c : Crypto) (a : ReorgTransition) : List Bytes :=
  [(hashTwoToOne c (hashTwoToOne c a.previousHeaderHash a.newHeaderHash)
    (computeBacklogHash c a.backlogTxoMints)).toList, a.configParamsHash.toList,
    a.custodianWalletConfigHash.toList]

def ReorgTransition.messages (c : Crypto) (a : ReorgTransition) : List Bytes :=
  (a.previousHeaderHash.toList ++ a.newHeaderHash.toList) ::
    ((hashTwoToOne c a.previousHeaderHash a.newHeaderHash).toList ++
      (computeBacklogHash c a.backlogTxoMints).toList) ::
    (a.parts c).flatten :: backlogMessages c zeroBytes a.backlogTxoMints

structure WithdrawalProof where
  snapshotHash : QHash256
  oldReturnOutputHash : QHash256
  newReturnOutputHash : QHash256
  oldSpentTxoTreeRoot : QHash256
  newSpentTxoTreeRoot : QHash256
  custodianWalletConfigHash : QHash256
  newNextProcessedWithdrawalsIndex : UInt64
  deriving DecidableEq

def WithdrawalProof.publicInputs (c : Crypto) (a : WithdrawalProof) : QHash256 :=
  getWithdrawalProofPublicInputs c a.snapshotHash a.oldReturnOutputHash a.newReturnOutputHash
    a.oldSpentTxoTreeRoot a.newSpentTxoTreeRoot a.custodianWalletConfigHash
    a.newNextProcessedWithdrawalsIndex

def WithdrawalProof.parts (c : Crypto) (a : WithdrawalProof) : List Bytes :=
  [a.snapshotHash.toList, (hashTwoToOne c a.oldReturnOutputHash a.newReturnOutputHash).toList,
    (hashTwoToOne c a.oldSpentTxoTreeRoot a.newSpentTxoTreeRoot).toList,
    Pod.u64.encode a.newNextProcessedWithdrawalsIndex, a.custodianWalletConfigHash.toList]

def WithdrawalProof.messages (c : Crypto) (a : WithdrawalProof) : List Bytes :=
  [a.oldReturnOutputHash.toList ++ a.newReturnOutputHash.toList,
    a.oldSpentTxoTreeRoot.toList ++ a.newSpentTxoTreeRoot.toList, (a.parts c).flatten]

structure ManualDeposit where
  recentBlockMerkleTreeRoot : QHash256
  recentAutoClaimTxoRoot : QHash256
  oldManualClaimDepositTxoRoot : QHash256
  newManualClaimTxoRoot : QHash256
  txHash : QHash256
  userAta : QHash256
  custodianWalletConfigHash : QHash256
  combinedTxoIndex : UInt64
  depositAmountSats : UInt64
  deriving DecidableEq

def ManualDeposit.publicInputs (c : Crypto) (a : ManualDeposit) : QHash256 :=
  getManualDepositProofPublicInputs c a.recentBlockMerkleTreeRoot a.recentAutoClaimTxoRoot
    a.oldManualClaimDepositTxoRoot a.newManualClaimTxoRoot a.txHash a.userAta
    a.custodianWalletConfigHash a.combinedTxoIndex a.depositAmountSats

def ManualDeposit.recentInfo (c : Crypto) (a : ManualDeposit) : QHash256 :=
  hashTwoToOne c a.recentBlockMerkleTreeRoot a.recentAutoClaimTxoRoot

def ManualDeposit.claimTransition (c : Crypto) (a : ManualDeposit) : QHash256 :=
  hashTwoToOne c a.oldManualClaimDepositTxoRoot a.newManualClaimTxoRoot

def ManualDeposit.txParts (a : ManualDeposit) : List Bytes :=
  [a.txHash.toList, a.userAta.toList, Pod.u64.encode a.combinedTxoIndex,
    Pod.u64.encode a.depositAmountSats]

def ManualDeposit.parts (c : Crypto) (a : ManualDeposit) : List Bytes :=
  [(hashTwoToOne c (a.recentInfo c) (a.claimTransition c)).toList, (hashv c a.txParts).toList,
    a.custodianWalletConfigHash.toList]

def ManualDeposit.messages (c : Crypto) (a : ManualDeposit) : List Bytes :=
  [a.recentBlockMerkleTreeRoot.toList ++ a.recentAutoClaimTxoRoot.toList,
    a.oldManualClaimDepositTxoRoot.toList ++ a.newManualClaimTxoRoot.toList,
    (a.recentInfo c).toList ++ (a.claimTransition c).toList, a.txParts.flatten, (a.parts c).flatten]

section

variable (hS : Set.InjOn c.sha256 S)
include hS

theorem BlockTransition.inj {a b : BlockTransition} (ha : ∀ m ∈ a.messages c, m ∈ S)
    (hb : ∀ m ∈ b.messages c, m ∈ S) (h : a.publicInputs c = b.publicInputs c) : a = b := by
  simp only [messages, List.forall_mem_cons] at ha hb
  obtain ⟨headers, outer, -⟩ := ha
  obtain ⟨headers', outer', -⟩ := hb
  have hparts := hashv_inj hS outer outer' (by simp [parts]) h
  simp only [parts, List.cons.injEq, Vector.toList_inj] at hparts
  obtain ⟨htransition, hconfig, hcustodian, -⟩ := hparts
  obtain ⟨hprevious, hnew⟩ := hashTwoToOne_inj hS headers headers' htransition
  cases a
  cases b
  simp_all only

theorem ReorgTransition.inj {a b : ReorgTransition} (hz : ∀ m ∈ S, c.sha256 m ≠ zeroBytes)
    (ha : ∀ m ∈ a.messages c, m ∈ S) (hb : ∀ m ∈ b.messages c, m ∈ S)
    (h : a.publicInputs c = b.publicInputs c) : a = b := by
  simp only [messages, List.forall_mem_cons] at ha hb
  obtain ⟨headers, both, outer, backlog⟩ := ha
  obtain ⟨headers', both', outer', backlog'⟩ := hb
  have hparts := hashv_inj hS outer outer' (by simp [parts]) h
  simp only [parts, List.cons.injEq, Vector.toList_inj] at hparts
  obtain ⟨hboth, hconfig, hcustodian, -⟩ := hparts
  obtain ⟨htransition, hbacklog⟩ := hashTwoToOne_inj hS both both' hboth
  obtain ⟨hprevious, hnew⟩ := hashTwoToOne_inj hS headers headers' htransition
  have hentries := backlog_inj hS hz backlog backlog' hbacklog
  cases a
  cases b
  simp_all only

theorem WithdrawalProof.inj {a b : WithdrawalProof} (ha : ∀ m ∈ a.messages c, m ∈ S)
    (hb : ∀ m ∈ b.messages c, m ∈ S) (h : a.publicInputs c = b.publicInputs c) : a = b := by
  simp only [messages, List.forall_mem_cons] at ha hb
  obtain ⟨outputs, roots, outer, -⟩ := ha
  obtain ⟨outputs', roots', outer', -⟩ := hb
  have hparts := hashv_inj hS outer outer' (by simp [parts]) h
  simp only [parts, List.cons.injEq, Vector.toList_inj, Pod.encode_inj] at hparts
  obtain ⟨hsnapshot, houtput, hroot, hindex, hcustodian, -⟩ := hparts
  obtain ⟨holdOutput, hnewOutput⟩ := hashTwoToOne_inj hS outputs outputs' houtput
  obtain ⟨holdRoot, hnewRoot⟩ := hashTwoToOne_inj hS roots roots' hroot
  cases a
  cases b
  simp_all only

theorem ManualDeposit.inj {a b : ManualDeposit} (ha : ∀ m ∈ a.messages c, m ∈ S)
    (hb : ∀ m ∈ b.messages c, m ∈ S) (h : a.publicInputs c = b.publicInputs c) : a = b := by
  simp only [messages, List.forall_mem_cons] at ha hb
  obtain ⟨recent, claims, both, tx, outer, -⟩ := ha
  obtain ⟨recent', claims', both', tx', outer', -⟩ := hb
  have hparts := hashv_inj hS outer outer' (by simp [parts]) h
  simp only [parts, List.cons.injEq, Vector.toList_inj] at hparts
  obtain ⟨hboth, htx, hcustodian, -⟩ := hparts
  obtain ⟨hrecent, hclaims⟩ := hashTwoToOne_inj hS both both' hboth
  obtain ⟨hblockRoot, hautoRoot⟩ := hashTwoToOne_inj hS recent recent' hrecent
  obtain ⟨holdClaims, hnewClaims⟩ := hashTwoToOne_inj hS claims claims' hclaims
  have htxParts := hashv_inj hS tx tx' (by simp [txParts]) htx
  simp only [txParts, List.cons.injEq, Vector.toList_inj, Pod.encode_inj] at htxParts
  obtain ⟨htxHash, hata, hindex, hamount, -⟩ := htxParts
  cases a
  cases b
  simp_all only

end

/-- Each of the four public inputs determines all its arguments, if the messages hashed for the
two argument lists do not collide and, for a backlog, none of them is hashed to zero. -/
theorem public_inputs_injective (c : Crypto) :
    (∀ a b : BlockTransition,
      Set.InjOn c.sha256 {m | m ∈ a.messages c ∨ m ∈ b.messages c} →
      getBlockTransitionPublicInputs c a.previousHeaderHash a.newHeaderHash a.configParamsHash
          a.custodianWalletConfigHash =
        getBlockTransitionPublicInputs c b.previousHeaderHash b.newHeaderHash b.configParamsHash
          b.custodianWalletConfigHash → a = b) ∧
    (∀ a b : ReorgTransition,
      Set.InjOn c.sha256 {m | m ∈ a.messages c ∨ m ∈ b.messages c} →
      (∀ m, m ∈ a.messages c ∨ m ∈ b.messages c → c.sha256 m ≠ zeroBytes) →
      getReorgBlockTransitionPublicInputs c a.previousHeaderHash a.newHeaderHash a.backlogTxoMints
          a.configParamsHash a.custodianWalletConfigHash =
        getReorgBlockTransitionPublicInputs c b.previousHeaderHash b.newHeaderHash
          b.backlogTxoMints b.configParamsHash b.custodianWalletConfigHash → a = b) ∧
    (∀ a b : WithdrawalProof,
      Set.InjOn c.sha256 {m | m ∈ a.messages c ∨ m ∈ b.messages c} →
      getWithdrawalProofPublicInputs c a.snapshotHash a.oldReturnOutputHash a.newReturnOutputHash
          a.oldSpentTxoTreeRoot a.newSpentTxoTreeRoot a.custodianWalletConfigHash
          a.newNextProcessedWithdrawalsIndex =
        getWithdrawalProofPublicInputs c b.snapshotHash b.oldReturnOutputHash b.newReturnOutputHash
          b.oldSpentTxoTreeRoot b.newSpentTxoTreeRoot b.custodianWalletConfigHash
          b.newNextProcessedWithdrawalsIndex → a = b) ∧
    (∀ a b : ManualDeposit,
      Set.InjOn c.sha256 {m | m ∈ a.messages c ∨ m ∈ b.messages c} →
      getManualDepositProofPublicInputs c a.recentBlockMerkleTreeRoot a.recentAutoClaimTxoRoot
          a.oldManualClaimDepositTxoRoot a.newManualClaimTxoRoot a.txHash a.userAta
          a.custodianWalletConfigHash a.combinedTxoIndex a.depositAmountSats =
        getManualDepositProofPublicInputs c b.recentBlockMerkleTreeRoot b.recentAutoClaimTxoRoot
          b.oldManualClaimDepositTxoRoot b.newManualClaimTxoRoot b.txHash b.userAta
          b.custodianWalletConfigHash b.combinedTxoIndex b.depositAmountSats → a = b) := by
  refine ⟨?_, ?_, ?_, ?_⟩
  · intro a b hS h
    exact BlockTransition.inj hS (fun _ => .inl) (fun _ => .inr) h
  · intro a b hS hz h
    exact ReorgTransition.inj hS hz (fun _ => .inl) (fun _ => .inr) h
  · intro a b hS h
    exact WithdrawalProof.inj hS (fun _ => .inl) (fun _ => .inr) h
  · intro a b hS h
    exact ManualDeposit.inj hS (fun _ => .inl) (fun _ => .inr) h

def shortReorg : ReorgTransition := ⟨const32 1, const32 2, [], const32 5, const32 6⟩
def longReorg : ReorgTransition := { shortReorg with backlogTxoMints := [⟨const32 3, const32 4⟩] }

def reorgMessages : List Bytes := shortReorg.messages crypto ++ (longReorg.messages crypto).tail

theorem mem_reorgMessages {m : Bytes} :
    m ∈ shortReorg.messages crypto ∨ m ∈ longReorg.messages crypto ↔ m ∈ reorgMessages := by
  have hhead : longReorg.messages crypto =
      (shortReorg.messages crypto).head (List.cons_ne_nil _ _) ::
        (longReorg.messages crypto).tail := rfl
  rw [reorgMessages, List.mem_append]
  constructor
  · intro h
    rcases h with h | h
    · exact .inl h
    · rw [hhead, List.mem_cons] at h
      rcases h with rfl | h
      · exact .inl (List.head_mem _)
      · exact .inr h
  · intro h
    rcases h with h | h
    · exact .inl h
    · exact .inr (List.mem_of_mem_tail h)

/-- An instance of `public_inputs_injective` under SHA-256: the two cannot have the same public
inputs. -/
theorem reorg_inputs_differ :
    shortReorg ≠ longReorg ∧ shortReorg.publicInputs crypto ≠ longReorg.publicInputs crypto := by
  have hnodup : (reorgMessages.map crypto.sha256).Nodup := by decide +kernel
  have hzero : ∀ m ∈ reorgMessages, crypto.sha256 m ≠ zeroBytes := by decide +kernel
  have hne : shortReorg ≠ longReorg := by decide
  refine ⟨hne, fun h => hne ?_⟩
  refine (public_inputs_injective crypto).2.1 shortReorg longReorg ?_ ?_ h
  · intro m hm m' hm' heq
    exact List.inj_on_of_nodup_map hnodup (mem_reorgMessages.mp hm) (mem_reorgMessages.mp hm') heq
  · intro m hm
    exact hzero m (mem_reorgMessages.mp hm)

end PublicInputs
