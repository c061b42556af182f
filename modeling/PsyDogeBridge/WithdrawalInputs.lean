import PsyDogeBridge.LocalCluster
import Mathlib.Data.Set.Function

/-! What the public inputs of a withdrawal proof say about the state that the proof starts from.
No hash function is injective on all strings, so nothing more is asked of it than that the
messages hashed here do not collide. -/
namespace WithdrawalInputs

open PodLayout BridgeData ProgramState LocalCluster

variable {c : Crypto} {S : Set Bytes}

theorem hashTwoToOne_inj {a b a' b' : QHash256} (hS : Set.InjOn c.sha256 S)
    (hm : a.toList ++ b.toList ∈ S) (hm' : a'.toList ++ b'.toList ∈ S)
    (h : hashTwoToOne c a b = hashTwoToOne c a' b') : a = a' ∧ b = b' := by
  have hlen : a.toList.length = a'.toList.length := by simp
  obtain ⟨ha, hb⟩ := List.append_inj (hS hm hm' h) hlen
  exact ⟨Vector.toList_inj.mp ha, Vector.toList_inj.mp hb⟩

theorem hashed_pod_inj {α : Type} {p : Pod α} {a a' : α} (hS : Set.InjOn c.sha256 S)
    (hm : p.encode a ∈ S) (hm' : p.encode a' ∈ S)
    (h : c.sha256 (p.encode a) = c.sha256 (p.encode a')) : a = a' :=
  p.encode_injective (hS hm hm' h)

structure Withdrawal where
  newReturnOutput : PsyReturnTxOutput
  newSpentTxoTreeRoot : QHash256
  newNextProcessedWithdrawalsIndex : UInt64
  deriving DecidableEq

def publicInputs (c : Crypto) (s : PsyBridgeProgramState) (w : Withdrawal) : QHash256 :=
  s.getExpectedPublicInputsForWithdrawalProof c w.newReturnOutput w.newSpentTxoTreeRoot
    w.newNextProcessedWithdrawalsIndex

def outerParts (c : Crypto) (s : PsyBridgeProgramState) (w : Withdrawal) : List Bytes :=
  [(s.withdrawalSnapshot.getHash c).toList,
    (hashTwoToOne c (s.lastReturnOutput.getHash c) (w.newReturnOutput.getHash c)).toList,
    (hashTwoToOne c s.spentTxoTreeRoot w.newSpentTxoTreeRoot).toList,
    Pod.u64.encode w.newNextProcessedWithdrawalsIndex, s.custodianWalletConfigHash.toList]

def hashedMessages (c : Crypto) (s : PsyBridgeProgramState) (w : Withdrawal) : List Bytes :=
  [PsyWithdrawalChainSnapshot.pod.encode s.withdrawalSnapshot,
    PsyReturnTxOutput.pod.encode s.lastReturnOutput, PsyReturnTxOutput.pod.encode w.newReturnOutput,
    (s.lastReturnOutput.getHash c).toList ++ (w.newReturnOutput.getHash c).toList,
    s.spentTxoTreeRoot.toList ++ w.newSpentTxoTreeRoot.toList, (outerParts c s w).flatten]

theorem publicInputs_eq (s : PsyBridgeProgramState) (w : Withdrawal) :
    publicInputs c s w = c.sha256 (outerParts c s w).flatten := rfl

structure SameStart (s₁ s₂ : PsyBridgeProgramState) (w₁ w₂ : Withdrawal) : Prop where
  withdrawal : w₁ = w₂
  snapshot : s₁.withdrawalSnapshot = s₂.withdrawalSnapshot
  custodian : s₁.custodianWalletConfigHash = s₂.custodianWalletConfigHash
  returnOutput : s₁.lastReturnOutput = s₂.lastReturnOutput
  spentRoot : s₁.spentTxoTreeRoot = s₂.spentTxoTreeRoot

variable {s₁ s₂ : PsyBridgeProgramState} {w₁ w₂ : Withdrawal}

theorem SameStart.publicInputs_eq (h : SameStart s₁ s₂ w₁ w₂) :
    publicInputs c s₁ w₁ = publicInputs c s₂ w₂ := by
  obtain ⟨rfl, hsnap, hcust, hret, hspent⟩ := h
  simp only [WithdrawalInputs.publicInputs_eq, outerParts, hsnap, hcust, hret, hspent]

/-- Public inputs determine the withdrawal and the mentioned part of the state. -/
theorem sameStart_of_publicInputs_eq (hS : Set.InjOn c.sha256 S)
    (h₁ : ∀ m ∈ hashedMessages c s₁ w₁, m ∈ S) (h₂ : ∀ m ∈ hashedMessages c s₂ w₂, m ∈ S)
    (h : publicInputs c s₁ w₁ = publicInputs c s₂ w₂) : SameStart s₁ s₂ w₁ w₂ := by
  simp only [hashedMessages, List.forall_mem_cons] at h₁ h₂
  obtain ⟨snap₁, old₁, new₁, out₁, root₁, outer₁, -⟩ := h₁
  obtain ⟨snap₂, old₂, new₂, out₂, root₂, outer₂, -⟩ := h₂
  have houter := hS outer₁ outer₂ h
  simp only [outerParts, List.flatten_cons, List.flatten_nil, List.append_nil] at houter
  obtain ⟨hsnap, houter⟩ := List.append_inj houter (by simp)
  obtain ⟨hout, houter⟩ := List.append_inj houter (by simp)
  obtain ⟨hroot, houter⟩ := List.append_inj houter (by simp)
  obtain ⟨hidx, hcust⟩ := List.append_inj houter (by simp)
  rw [Vector.toList_inj] at hsnap hout hroot hcust
  rw [Pod.encode_inj] at hidx
  obtain ⟨hold, hnew⟩ := hashTwoToOne_inj hS out₁ out₂ hout
  obtain ⟨hspent, hnewRoot⟩ := hashTwoToOne_inj hS root₁ root₂ hroot
  refine ⟨?_, hashed_pod_inj hS snap₁ snap₂ hsnap, hcust, hashed_pod_inj hS old₁ old₂ hold, hspent⟩
  have hreturn := hashed_pod_inj hS new₁ new₂ hnew
  cases w₁
  cases w₂
  simp_all only

/-- Equal public inputs fix all that the withdrawal overwrites exactly if the old index of the
next withdrawal, which they leave out, is the same whenever the rest is. -/
theorem publicInputs_fix_start_iff
    (hS : Set.InjOn c.sha256 {m | m ∈ hashedMessages c s₁ w₁ ∨ m ∈ hashedMessages c s₂ w₂}) :
    (publicInputs c s₁ w₁ = publicInputs c s₂ w₂ → SameStart s₁ s₂ w₁ w₂ ∧
      s₁.nextProcessedWithdrawalsIndex = s₂.nextProcessedWithdrawalsIndex) ↔
    (SameStart s₁ s₂ w₁ w₂ →
      s₁.nextProcessedWithdrawalsIndex = s₂.nextProcessedWithdrawalsIndex) := by
  constructor
  · intro h hsame
    exact (h hsame.publicInputs_eq).2
  · intro h heq
    have hsame := sameStart_of_publicInputs_eq hS (fun _ => .inl) (fun _ => .inr) heq
    exact ⟨hsame, h hsame⟩

def sampleWithdrawal : Withdrawal := ⟨⟨const32 1, 0, 50⟩, const32 2, 7⟩

def freshState : PsyBridgeProgramState := (genesisState operatorKey 10).coreState
def laterState : PsyBridgeProgramState := { freshState with nextProcessedWithdrawalsIndex := 5 }

theorem sample_collision_free : Set.InjOn crypto.sha256
    {m | m ∈ hashedMessages crypto freshState sampleWithdrawal ∨
      m ∈ hashedMessages crypto laterState sampleWithdrawal} := by
  have hnodup : ((hashedMessages crypto freshState sampleWithdrawal).map crypto.sha256).Nodup := by
    decide +kernel
  have hinj := List.inj_on_of_nodup_map hnodup
  -- Neither state mentions the index, so both hash the same messages.
  have hsame : hashedMessages crypto laterState sampleWithdrawal =
      hashedMessages crypto freshState sampleWithdrawal := rfl
  intro x hx y hy
  rw [Set.mem_ofPred_eq, hsame, or_self] at hx hy
  exact hinj hx hy

theorem old_index_not_fixed :
    Set.InjOn crypto.sha256 {m | m ∈ hashedMessages crypto freshState sampleWithdrawal ∨
        m ∈ hashedMessages crypto laterState sampleWithdrawal} ∧
      publicInputs crypto freshState sampleWithdrawal =
        publicInputs crypto laterState sampleWithdrawal ∧
      freshState.nextProcessedWithdrawalsIndex ≠ laterState.nextProcessedWithdrawalsIndex := by
  refine ⟨sample_collision_free, rfl, ?_⟩
  decide

theorem publicInputs_fix_start_sample :
    (publicInputs crypto freshState sampleWithdrawal =
        publicInputs crypto laterState sampleWithdrawal →
      SameStart freshState laterState sampleWithdrawal sampleWithdrawal ∧
      freshState.nextProcessedWithdrawalsIndex = laterState.nextProcessedWithdrawalsIndex) ↔
    (SameStart freshState laterState sampleWithdrawal sampleWithdrawal →
      freshState.nextProcessedWithdrawalsIndex = laterState.nextProcessedWithdrawalsIndex) :=
  publicInputs_fix_start_iff sample_collision_free

end WithdrawalInputs
