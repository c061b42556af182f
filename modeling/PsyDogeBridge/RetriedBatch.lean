import Mathlib.Data.List.Perm.Basic

/-! Operations that are sent together and sent again when they are rejected. The operations of a
batch take effect one after the other, in any order; a rejected one changes nothing, and one that is
rejected too often makes the batch fail. The next batch is sent when the last one has succeeded. -/
namespace RetriedBatch

section Batch

variable {α σ ε : Type*}

/-- What may become of a batch: each pending operation has been rejected so many times. -/
inductive JoinAll (op : α → σ → Except ε σ) (maxRetries : ℕ) :
    σ → List (α × ℕ) → Except ε σ → Prop where
  | done {s} : JoinAll op maxRetries s [] (.ok s)
  | accepted {s s' earlier a n later result} (ok : op a s = .ok s')
      (rest : JoinAll op maxRetries s' (earlier ++ later) result) :
      JoinAll op maxRetries s (earlier ++ (a, n) :: later) result
  | retried {s earlier a n later result e} (rejected : op a s = .error e) (again : n < maxRetries)
      (rest : JoinAll op maxRetries s (earlier ++ (a, n + 1) :: later) result) :
      JoinAll op maxRetries s (earlier ++ (a, n) :: later) result
  | failed {s earlier a n later e} (rejected : op a s = .error e) (last : maxRetries ≤ n) :
      JoinAll op maxRetries s (earlier ++ (a, n) :: later) (.error e)

inductive Batches (op : α → σ → Except ε σ) (maxRetries : ℕ) :
    σ → List (List α) → Except ε σ → Prop where
  | done {s} : Batches op maxRetries s [] (.ok s)
  | next {s s' batch batches result} (joined : JoinAll op maxRetries s (batch.map (·, 0)) (.ok s'))
      (rest : Batches op maxRetries s' batches result) :
      Batches op maxRetries s (batch :: batches) result
  | failed {s batch batches e} (joined : JoinAll op maxRetries s (batch.map (·, 0)) (.error e)) :
      Batches op maxRetries s (batch :: batches) (.error e)

variable {op : α → σ → Except ε σ} {maxRetries : ℕ} {s : σ} {result : Except ε σ}

/-- An operation that the present state rejects may use up its retries before any other operation
takes effect. -/
theorem JoinAll.of_rejected {earlier later : List (α × ℕ)} {a : α} {e : ε}
    (rejected : op a s = .error e) (n : ℕ) :
    JoinAll op maxRetries s (earlier ++ (a, n) :: later) (.error e) := by
  by_cases hn : n < maxRetries
  · exact .retried rejected hn (of_rejected rejected (n + 1))
  · exact .failed rejected (Nat.le_of_not_lt hn)
termination_by maxRetries - n

theorem JoinAll.exists_result (s : σ) (pending : List (α × ℕ)) :
    ∃ result, JoinAll op maxRetries s pending result := by
  induction pending generalizing s with
  | nil => exact ⟨_, .done⟩
  | cons x pending ih =>
    obtain ⟨a, n⟩ := x
    have hcons : (a, n) :: pending = [] ++ (a, n) :: pending := rfl
    rw [hcons]
    cases hop : op a s with
    | ok s' =>
      obtain ⟨result, hrest⟩ := ih s'
      exact ⟨result, .accepted hop hrest⟩
    | error e => exact ⟨_, .of_rejected hop n⟩

theorem pending_next {done batch : List α} {earlier later : List (α × ℕ)} {a : α} {n : ℕ}
    (hperm : (done ++ (earlier ++ (a, n) :: later).map Prod.fst).Perm batch) :
    (done ++ a :: (earlier ++ later).map Prod.fst).Perm batch := by
  refine List.Perm.trans (List.Perm.append_left done ?_) hperm
  rw [List.map_append, List.map_append, List.map_cons]
  exact List.perm_middle.symm

/-- A batch whose operations are all accepted, in whatever order they come, succeeds and keeps what
every one of them keeps. `I` may mention the operations that have taken effect. -/
theorem JoinAll.invariant {I : List α → σ → Prop} {batch done : List α} {pending : List (α × ℕ)}
    (step : ∀ done a rest s, (done ++ a :: rest).Perm batch → I done s →
      ∃ s', op a s = .ok s' ∧ I (done ++ [a]) s')
    (h : JoinAll op maxRetries s pending result)
    (hperm : (done ++ pending.map Prod.fst).Perm batch) (hI : I done s) :
    ∃ s' done', result = .ok s' ∧ done'.Perm batch ∧ I done' s' := by
  induction h generalizing done with
  | done =>
    rw [List.map_nil, List.append_nil] at hperm
    exact ⟨_, done, rfl, hperm, hI⟩
  | @accepted s s' earlier a n later result ok rest ih =>
    have hnext := pending_next hperm
    obtain ⟨s₁, hok, hI₁⟩ := step done a _ s hnext hI
    rw [ok, Except.ok.injEq] at hok
    rw [← hok] at hI₁
    refine ih ?_ hI₁
    rw [List.append_assoc]
    exact hnext
  | @retried s earlier a n later result e rejected again rest ih =>
    refine ih ?_ hI
    rw [List.map_append, List.map_cons] at hperm ⊢
    exact hperm
  | @failed s earlier a n later e rejected last =>
    have hnext := pending_next hperm
    obtain ⟨s₁, hok, -⟩ := step done a _ s hnext hI
    rw [rejected] at hok
    cases hok

theorem Batches.exists_result (s : σ) (batches : List (List α)) :
    ∃ result, Batches op maxRetries s batches result := by
  induction batches generalizing s with
  | nil => exact ⟨_, .done⟩
  | cons batch batches ih =>
    obtain ⟨result, hjoined⟩ : ∃ result, JoinAll op maxRetries s (batch.map (·, 0)) result :=
      JoinAll.exists_result s _
    cases result with
    | ok s' =>
      obtain ⟨result, hrest⟩ := ih s'
      exact ⟨result, .next hjoined hrest⟩
    | error e => exact ⟨_, .failed hjoined⟩

theorem Batches.of_rejected {batch : List α} {batches : List (List α)} {a : α} {e : ε}
    (ha : a ∈ batch) (rejected : op a s = .error e) :
    Batches op maxRetries s (batch :: batches) (.error e) := by
  obtain ⟨earlier, later, rfl⟩ := List.append_of_mem ha
  refine .failed ?_
  rw [List.map_append, List.map_cons]
  exact .of_rejected rejected 0

/-- The same for all batches: what comes before a batch has taken effect when it is sent. -/
theorem Batches.invariant {I : List α → σ → Prop} {before batches all : List (List α)}
    {earlier : List α}
    (step : ∀ before batch after, before ++ batch :: after = all → ∀ earlier done a rest s,
      earlier.Perm before.flatten → (done ++ a :: rest).Perm batch → I (earlier ++ done) s →
      ∃ s', op a s = .ok s' ∧ I (earlier ++ done ++ [a]) s')
    (h : Batches op maxRetries s batches result) (hall : before ++ batches = all)
    (hearlier : earlier.Perm before.flatten) (hI : I earlier s) :
    ∃ s' done, result = .ok s' ∧ done.Perm all.flatten ∧ I done s' := by
  have joins {before batch after s earlier result} (hall : before ++ batch :: after = all)
      (hearlier : earlier.Perm before.flatten) (hI : I earlier s)
      (hjoined : JoinAll op maxRetries s (batch.map (·, 0)) result) :
      ∃ s' done', result = .ok s' ∧ done'.Perm batch ∧ I (earlier ++ done') s' := by
    have hstart : ([] ++ (batch.map (·, 0)).map Prod.fst : List α).Perm batch := by
      rw [List.nil_append, List.map_map]
      exact List.Perm.of_eq (List.map_id _)
    refine hjoined.invariant (I := fun done => I (earlier ++ done)) ?_ hstart ?_
    · intro done a rest s hperm hI
      rw [← List.append_assoc]
      exact step before batch after hall earlier done a rest s hearlier hperm hI
    · rw [List.append_nil]
      exact hI
  induction h generalizing before earlier with
  | done =>
    rw [List.append_nil] at hall
    rw [hall] at hearlier
    exact ⟨_, earlier, rfl, hearlier, hI⟩
  | @next s s' batch batches result joined rest ih =>
    obtain ⟨s₁, done, hs₁, hdone, hI₁⟩ := joins hall hearlier hI joined
    cases hs₁
    have hall₁ : before ++ [batch] ++ batches = all := by
      rw [List.append_assoc]
      exact hall
    refine ih hall₁ ?_ hI₁
    rw [List.flatten_append, List.flatten_singleton]
    exact hearlier.append hdone
  | @failed s batch batches e joined =>
    obtain ⟨s₁, done, hs₁, -⟩ := joins hall hearlier hI joined
    cases hs₁

end Batch

section Division

/-- The numbers below `n` in batches of the size `size`, as a loop over the batch starts makes
them. -/
def divided (size n : ℕ) : List (List ℕ) :=
  (List.range' 0 ((n + (size - 1)) / size) size).map fun start =>
    List.range' start (min (start + size) n - start)

variable {size n a : ℕ} {before after : List (List ℕ)} {batch : List ℕ}

def batchAt (size n j : ℕ) : List ℕ := List.range' (size * j) (min (size * j + size) n - size * j)

theorem divided_eq : divided size n =
    (List.range ((n + (size - 1)) / size)).map (batchAt size n) := by
  apply List.ext_getElem
  · rw [divided, List.length_map, List.length_map, List.length_range', List.length_range]
  · intro j _ _
    simp only [divided, List.getElem_map, List.getElem_range', List.getElem_range, Nat.zero_add]
    rfl

theorem batches_flatten (size n m : ℕ) :
    ((List.range m).map (batchAt size n)).flatten = List.range (min (size * m) n) := by
  induction m with
  | zero => rw [Nat.mul_zero, Nat.zero_min, List.range_zero, List.map_nil, List.flatten_nil]
  | succ m ih =>
    rw [List.range_succ, List.map_append, List.flatten_append, ih, List.map_singleton,
      List.flatten_singleton, batchAt, Nat.mul_succ, List.range_eq_range', List.range_eq_range']
    rcases Nat.le_total (size * m) n with hle | hge
    · have happend : List.range' 0 (size * m) ++
          List.range' (0 + size * m) (min (size * m + size) n - size * m) =
          List.range' 0 (size * m + (min (size * m + size) n - size * m)) := List.range'_append_1
      rw [Nat.zero_add, Nat.add_sub_cancel' (by omega)] at happend
      rw [Nat.min_eq_left hle]
      exact happend
    · have hnone : min (size * m + size) n - size * m = 0 := by omega
      rw [hnone, List.range'_zero, List.append_nil, Nat.min_eq_right hge,
        Nat.min_eq_right (by omega)]

theorem divided_flatten (hpos : 0 < size) : (divided size n).flatten = List.range n := by
  have hlast : n ≤ size * ((n + (size - 1)) / size) := by
    have hmod := Nat.div_add_mod (n + (size - 1)) size
    have hlt := Nat.mod_lt (n + (size - 1)) hpos
    omega
  rw [divided_eq, batches_flatten, Nat.min_eq_right hlast]

theorem divided_cons (hpos : 0 < size) (hn : 0 < n) :
    ∃ rest, divided size n = List.range (min size n) :: rest := by
  have hcount : 0 < (n + (size - 1)) / size := Nat.div_pos (by omega) hpos
  obtain ⟨count, hsucc⟩ := Nat.exists_eq_succ_of_ne_zero (Nat.pos_iff_ne_zero.mp hcount)
  have hfirst : batchAt size n 0 = List.range (min size n) := by
    rw [batchAt, Nat.mul_zero, Nat.zero_add, Nat.sub_zero, ← List.range_eq_range']
  rw [divided_eq, hsucc, List.range_succ_eq_map, List.map_cons, hfirst]
  exact ⟨_, rfl⟩

theorem divided_mem (h : before ++ batch :: after = divided size n) (ha : a ∈ batch) :
    before.flatten.length ≤ a ∧ a < before.flatten.length + size ∧ a < n := by
  rw [divided_eq] at h
  have hlen := congrArg List.length h
  rw [List.length_append, List.length_cons, List.length_map, List.length_range] at hlen
  have hbefore : before = (List.range before.length).map (batchAt size n) := by
    have htake := congrArg (List.take before.length) h
    rw [List.take_left, ← List.map_take, List.take_range, Nat.min_eq_left (by omega)] at htake
    exact htake
  have hbatch : batch = batchAt size n before.length := by
    have hget := congrArg (·[before.length]?) h
    simp only [List.getElem?_append_right (Nat.le_refl _), Nat.sub_self, List.getElem?_cons_zero,
      List.getElem?_map] at hget
    rw [List.getElem?_range (by omega), Option.map_some, Option.some.injEq] at hget
    exact hget
  rw [hbatch, batchAt, List.mem_range'_1] at ha
  rw [hbefore, batches_flatten, List.length_range]
  omega

end Division

end RetriedBatch
