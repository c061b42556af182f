import PsyDogeBridge.SolanaRuntime

/-! The calls of one transaction in the order in which they start, each with the place of its
caller. The runtime lets a call name a signer only if its caller was given that signature or
derives the address. -/
namespace CallTrace

open PodLayout SolanaRuntime

structure Frame where
  programId : Pubkey
  accounts : List AccountInfo
  data : Bytes
  deriving DecidableEq

def Frame.ofCpi (c : Cpi) : Frame := ⟨c.programId, c.accounts, c.data⟩

def Frame.ofInvocation (inv : Invocation) (data : Bytes) : Frame :=
  ⟨inv.programId, inv.accounts, data⟩

def Frame.runsAs (f : Frame) (inv : Invocation) : Prop :=
  inv.programId = f.programId ∧ inv.accounts = f.accounts

def Frame.signs (f : Frame) (k : Pubkey) : Prop := ∃ a ∈ f.accounts, a.key = k ∧ a.isSigner

/-- `before` is the ledger when the call starts, `seeds` what its caller signs with. -/
structure Call where
  frame : Frame
  caller : Option ℕ
  seeds : List (List Bytes)
  before : Ledger

variable {p : Platform} {tr : List Call} {i j : ℕ} {c d : Call} {k : Pubkey}

def calledBy (tr : List Call) (i : ℕ) : List Frame :=
  (tr.filter fun c => c.caller = some i).map Call.frame

theorem mem_calledBy (hc : tr[i]? = some c) (hj : c.caller = some j) :
    c.frame ∈ calledBy tr j :=
  List.mem_map_of_mem (List.mem_filter.mpr ⟨List.mem_of_getElem? hc, by simpa using hj⟩)

structure Dispatched (p : Platform) (tr : List Call) : Prop where
  earlier : ∀ (i : ℕ) (c : Call) (j : ℕ), tr[i]? = some c → c.caller = some j → j < i
  granted : ∀ (i : ℕ) (c : Call) (j : ℕ) (d : Call) (k : Pubkey), tr[i]? = some c →
    c.caller = some j → tr[j]? = some d → c.frame.signs k → d.frame.signs k ∨
      ∃ s ∈ c.seeds, p.createProgramAddress s d.frame.programId = some k

theorem Dispatched.caller (h : Dispatched p tr) (hc : tr[i]? = some c) (hj : c.caller = some j) :
    ∃ d, tr[j]? = some d := by
  obtain ⟨hi, -⟩ := List.getElem?_eq_some_iff.mp hc
  have hlt := h.earlier i c j hc hj
  exact ⟨_, List.getElem?_eq_getElem (hlt.trans hi)⟩

/-- A signature is there from the start, or a program derives its address, or it is passed on. -/
theorem Dispatched.signer_induction {P : ℕ → Call → Prop} (h : Dispatched p tr)
    (top : ∀ (i : ℕ) (c : Call), tr[i]? = some c → c.frame.signs k → c.caller = none → P i c)
    (derived : ∀ (i : ℕ) (c : Call) (j : ℕ) (d : Call), tr[i]? = some c → c.caller = some j →
      tr[j]? = some d → ∀ s ∈ c.seeds, p.createProgramAddress s d.frame.programId = some k → P i c)
    (passed : ∀ (i : ℕ) (c : Call) (j : ℕ) (d : Call), tr[i]? = some c → c.caller = some j →
      tr[j]? = some d → P j d → P i c)
    (hc : tr[i]? = some c) (hk : c.frame.signs k) : P i c := by
  induction i using Nat.strong_induction_on generalizing c with
  | _ i ih =>
    cases hcaller : c.caller with
    | none => exact top i c hc hk hcaller
    | some j =>
      obtain ⟨d, hd⟩ := h.caller hc hcaller
      rcases h.granted i c j d k hc hcaller hd hk with hpassed | ⟨s, hs, hderived⟩
      · exact passed i c j d hc hcaller hd (ih j (h.earlier i c j hc hcaller) hd hpassed)
      · exact derived i c j d hc hcaller hd s hs hderived

section Linear

variable {cs : List Call} {n : ℕ}

/-- The caller may pass on or derive what the call names as signers. -/
def Grants (p : Platform) (d c : Call) : Prop :=
  ∀ k, c.frame.signs k → d.frame.signs k ∨
    ∃ s ∈ c.seeds, p.createProgramAddress s d.frame.programId = some k

/-- Each of the calls is made by the one before it, the first by the call `d` at place `i`. -/
def Linked (p : Platform) : Call → ℕ → List Call → Prop
  | _, _, [] => True
  | d, i, c :: cs => c.caller = some i ∧ Grants p d c ∧ Linked p c (i + 1) cs

theorem Linked.get (h : Linked p d i cs) (hc : cs[n]? = some c) :
    c.caller = some (i + n) ∧ ∃ e, (d :: cs)[n]? = some e ∧ Grants p e c := by
  induction cs generalizing d i n with
  | nil => cases hc
  | cons b cs ih =>
    obtain ⟨hcaller, hgrants, hlinked⟩ := h
    cases n with
    | zero =>
      cases hc
      exact ⟨hcaller, d, rfl, hgrants⟩
    | succ n =>
      obtain ⟨hn, e, he, hgranted⟩ := ih hlinked hc
      rw [Nat.add_right_comm] at hn
      exact ⟨hn, e, he, hgranted⟩

theorem Linked.place (hfirst : d.caller = none) (h : Linked p d 0 cs) (hc : (d :: cs)[i]? = some c)
    (hj : c.caller = some j) : i = j + 1 ∧ ∃ e, (d :: cs)[j]? = some e ∧ Grants p e c := by
  cases i with
  | zero =>
    cases hc
    rw [hfirst] at hj
    cases hj
  | succ n =>
    obtain ⟨hn, hgrants⟩ := h.get hc
    rw [hn, Nat.zero_add] at hj
    cases hj
    exact ⟨rfl, hgrants⟩

theorem Linked.dispatched (hfirst : d.caller = none) (h : Linked p d 0 cs) :
    Dispatched p (d :: cs) := by
  constructor
  · intro i c j hc hj
    rw [(h.place hfirst hc hj).1]
    exact Nat.lt_succ_self j
  · intro i c j e k hc hj he hk
    obtain ⟨-, e', he', hgrants⟩ := h.place hfirst hc hj
    rw [he] at he'
    cases he'
    exact hgrants k hk

theorem Linked.neighbours {e : Call} (hfirst : d.caller = none) (h : Linked p d 0 cs)
    (hc : (d :: cs)[i]? = some c) (hj : c.caller = some j) (he : (d :: cs)[j]? = some e) :
    (e, c) ∈ (d :: cs).zip cs := by
  obtain ⟨rfl, -⟩ := h.place hfirst hc hj
  exact List.mem_of_getElem? (List.getElem?_zip_eq_some.mpr ⟨he, hc⟩)

theorem Linked.top (h : Linked p d i cs) (hc : c ∈ d :: cs) (hnone : c.caller = none) : c = d := by
  rcases List.mem_cons.mp hc with hd | hmem
  · exact hd
  · obtain ⟨n, hn⟩ := List.getElem?_of_mem hmem
    rw [(h.get hn).1] at hnone
    cases hnone

theorem filter_place {α : Type} {l : List α} {q : α → Bool}
    (h : ∀ (m : ℕ) (x : α), l[m]? = some x → (q x = true ↔ m = n)) : l.filter q = l[n]?.toList := by
  induction l generalizing n with
  | nil => rfl
  | cons a l ih =>
    cases n with
    | zero =>
      have hrest : l.filter q = [] := by
        refine List.filter_eq_nil_iff.mpr fun x hx hq => ?_
        obtain ⟨m, hm⟩ := List.getElem?_of_mem hx
        exact Nat.succ_ne_zero m ((h (m + 1) x hm).mp hq)
      rw [List.filter_cons_of_pos ((h 0 a rfl).mpr rfl), hrest]
      rfl
    | succ n =>
      rw [List.filter_cons_of_neg fun hq => Nat.succ_ne_zero n ((h 0 a rfl).mp hq).symm]
      refine ih fun m x hm => (h (m + 1) x hm).trans ?_
      rw [Nat.add_right_cancel_iff]

theorem Linked.calledBy_eq (hfirst : d.caller = none) (h : Linked p d 0 cs) (i : ℕ) :
    calledBy (d :: cs) i = (cs[i]?.map Call.frame).toList := by
  rw [calledBy, filter_place (n := i + 1)]
  · cases hc : cs[i]? with
    | none => simp [hc]
    | some c => simp [hc]
  · intro m c hc
    cases m with
    | zero =>
      cases hc
      simp [hfirst]
    | succ m =>
      rw [(h.get hc).1]
      simp

end Linear

end CallTrace
