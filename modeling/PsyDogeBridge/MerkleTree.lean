import Mathlib.Data.Nat.Bitwise
import Mathlib.Data.Nat.Count
import Mathlib.Data.Set.Function
import Mathlib.Algebra.Order.Ring.Nat
import Mathlib.Data.List.GetD
import Mathlib.Data.List.Induction
import Mathlib.Tactic.Ring

/-! Binary Merkle trees over any two-to-one hash: the nodes of a complete tree, the path from a
leaf to the root, and the left siblings that an append-only tree keeps for its next leaf. -/
namespace MerkleTree

variable {α : Type*} (pair : α → α → α)

/-- The root of the subtree of height `d` over the leaves from `i * 2 ^ d` on. -/
def node (leaf : ℕ → α) : ℕ → ℕ → α
  | 0, i => leaf i
  | d + 1, i => pair (node leaf d (2 * i)) (node leaf d (2 * i + 1))

def leaves (zero : α) (xs : List α) (k : ℕ) : α := xs.getD k zero

variable {pair} {leaf leaf' : ℕ → α}

theorem halves (d i : ℕ) : 2 * i * 2 ^ d = i * 2 ^ (d + 1) ∧
    (2 * i + 1) * 2 ^ d = i * 2 ^ (d + 1) + 2 ^ d ∧
    (2 * i + 1 + 1) * 2 ^ d = (i + 1) * 2 ^ (d + 1) := by
  refine ⟨?_, ?_, ?_⟩ <;> ring

theorem node_congr {d i : ℕ}
    (h : ∀ k, i * 2 ^ d ≤ k → k < (i + 1) * 2 ^ d → leaf k = leaf' k) :
    node pair leaf d i = node pair leaf' d i := by
  induction d generalizing i with
  | zero => exact h i (by omega) (by omega)
  | succ d ih =>
    obtain ⟨h₀, h₁, h₂⟩ := halves d i
    have hsplit : (i + 1) * 2 ^ (d + 1) = i * 2 ^ (d + 1) + 2 ^ d + 2 ^ d := by ring
    rw [node, node, ih fun k hk hk' => h k (by omega) (by omega),
      ih fun k hk hk' => h k (by omega) (by omega)]

/-- The values of the empty subtrees of the heights up to `D`. -/
def Consistent (pair : α → α → α) (empty : ℕ → α) (D : ℕ) : Prop :=
  ∀ i < D, empty (i + 1) = pair (empty i) (empty i)

theorem node_empty {empty : ℕ → α} {D d i : ℕ} (hc : Consistent pair empty D) (hd : d ≤ D)
    (h : ∀ k, i * 2 ^ d ≤ k → k < (i + 1) * 2 ^ d → leaf k = empty 0) :
    node pair leaf d i = empty d := by
  have hsame : node pair leaf d i = node pair (fun _ => empty 0) d i := node_congr h
  rw [hsame]
  clear h hsame
  induction d generalizing i with
  | zero => rfl
  | succ d ih => rw [node, ih (by omega), ih (by omega), hc d (by omega)]

theorem div_pow_succ (n i : ℕ) : n / 2 ^ (i + 1) = n / 2 ^ i / 2 := by
  rw [pow_succ, Nat.div_div_eq_div_mul]

theorem node_parent (leaf : ℕ → α) (n i : ℕ) :
    node pair leaf (i + 1) (n / 2 ^ (i + 1)) =
      if n / 2 ^ i % 2 = 0 then
        pair (node pair leaf i (n / 2 ^ i)) (node pair leaf i (n / 2 ^ i + 1))
      else pair (node pair leaf i (n / 2 ^ i - 1)) (node pair leaf i (n / 2 ^ i)) := by
  rw [div_pow_succ, node]
  generalize n / 2 ^ i = q
  split
  · rw [show 2 * (q / 2) = q by omega]
  · rw [show 2 * (q / 2) = q - 1 by omega, show q - 1 + 1 = q by omega]

def lift (pair : α → α → α) (v : α) (p : ℕ) (sibling : α) : α :=
  if p % 2 = 0 then pair v sibling else pair sibling v

/-- The root that a leaf at position `p` and its siblings, lowest first, lead to. -/
def climb (pair : α → α → α) (v : α) (p : ℕ) : List α → α
  | [] => v
  | s :: siblings => climb pair (lift pair v p s) (p / 2) siblings

def climbPairs (pair : α → α → α) (v : α) (p : ℕ) : List α → Set (α × α)
  | [] => ∅
  | s :: siblings =>
    insert (if p % 2 = 0 then (v, s) else (s, v))
      (climbPairs pair (lift pair v p s) (p / 2) siblings)

def nodePairs (pair : α → α → α) (leaf : ℕ → α) (D : ℕ) : Set (α × α) :=
  { q | ∃ d i, d < D ∧ i < 2 ^ (D - 1 - d) ∧
    q = (node pair leaf d (2 * i), node pair leaf d (2 * i + 1)) }

def sibling (pair : α → α → α) (leaf : ℕ → α) (p d : ℕ) : α :=
  if p / 2 ^ d % 2 = 0 then node pair leaf d (p / 2 ^ d + 1) else node pair leaf d (p / 2 ^ d - 1)

def path (pair : α → α → α) (leaf : ℕ → α) (p d : ℕ) : List α :=
  (List.range d).map (sibling pair leaf p)

theorem lift_sibling (leaf : ℕ → α) (p d : ℕ) :
    lift pair (node pair leaf d (p / 2 ^ d)) (p / 2 ^ d) (sibling pair leaf p d) =
      node pair leaf (d + 1) (p / 2 ^ (d + 1)) := by
  rw [node_parent, lift, sibling]
  split <;> rfl

theorem climb_append (v : α) (p : ℕ) (ss ts : List α) :
    climb pair v p (ss ++ ts) = climb pair (climb pair v p ss) (p / 2 ^ ss.length) ts := by
  induction ss generalizing v p with
  | nil => rw [List.nil_append, List.length_nil, pow_zero, Nat.div_one, climb]
  | cons s ss ih =>
    rw [List.cons_append, climb, ih, climb, List.length_cons, pow_succ', Nat.div_div_eq_div_mul]

theorem climb_path (leaf : ℕ → α) (p d : ℕ) :
    climb pair (leaf p) p (path pair leaf p d) = node pair leaf d (p / 2 ^ d) := by
  induction d with
  | zero => rw [pow_zero, Nat.div_one]; rfl
  | succ d ih =>
    have hlen : (path pair leaf p d).length = d := by
      rw [path, List.length_map, List.length_range]
    rw [path, List.range_succ, List.map_append, climb_append]
    change climb pair (climb pair (leaf p) p (path pair leaf p d))
      (p / 2 ^ (path pair leaf p d).length) [sibling pair leaf p d] = _
    rw [ih, hlen]
    exact lift_sibling leaf p d

/-- The true path of a leaf leads through pairs of the tree. -/
theorem climbPairs_path (leaf : ℕ → α) {p d n : ℕ} (hp : p < 2 ^ (d + n)) :
    climbPairs pair (node pair leaf d (p / 2 ^ d)) (p / 2 ^ d)
      ((List.range' d n).map (sibling pair leaf p)) ⊆ nodePairs pair leaf (d + n) := by
  induction n generalizing d with
  | zero => exact Set.empty_subset _
  | succ n ih =>
    have hdiv : p / 2 ^ d / 2 = p / 2 ^ (d + 1) := by rw [Nat.div_div_eq_div_mul, pow_succ]
    rw [List.range'_succ, List.map_cons, climbPairs, lift_sibling, hdiv]
    refine Set.insert_subset ⟨d, p / 2 ^ (d + 1), by omega, ?_, ?_⟩ ?_
    · have hlevel : d + (n + 1) - 1 - d = n := by omega
      rw [hlevel]
      apply Nat.div_lt_of_lt_mul
      rw [← pow_add]
      exact hp.trans_eq (congrArg _ (by omega))
    · rw [sibling, ← hdiv]
      by_cases heven : p / 2 ^ d % 2 = 0
      · have hdouble : 2 * (p / 2 ^ d / 2) = p / 2 ^ d := by omega
        rw [if_pos heven, if_pos heven, hdouble]
      · have hdouble : 2 * (p / 2 ^ d / 2) = p / 2 ^ d - 1 := by omega
        have hsucc : p / 2 ^ d - 1 + 1 = p / 2 ^ d := by omega
        rw [if_neg heven, if_neg heven, hdouble, hsucc]
    · have hlevel : d + (n + 1) = d + 1 + n := by omega
      rw [hlevel] at hp ⊢
      exact ih hp

theorem mul_pow_div (p d j : ℕ) : p * 2 ^ d / 2 ^ (d + j) = p / 2 ^ j := by
  rw [pow_add, mul_comm p, Nat.mul_div_mul_left _ _ (Nat.two_pow_pos d)]

theorem climb_empty {empty : ℕ → α} {D d : ℕ} (hc : Consistent pair empty D) (hd : d ≤ D) (p : ℕ) :
    climb pair (empty 0) p ((List.range d).map empty) = empty d := by
  induction d with
  | zero => rfl
  | succ d ih =>
    rw [List.range_succ, List.map_append, climb_append, ih (by omega), hc d (by omega)]
    change lift pair (empty d) _ (empty d) = _
    rw [lift, ite_self]

/-- Whoever reaches the root of the tree without a collision started from the node that is there,
and the siblings they chose are the ones of the tree. -/
theorem climb_unique {siblings : List α} {v : α} {p d D : ℕ}
    (hinj : Set.InjOn (fun q : α × α => pair q.1 q.2)
      (nodePairs pair leaf D ∪ climbPairs pair v p siblings))
    (hlen : d + siblings.length = D) (hp : p < 2 ^ (D - d))
    (h : climb pair v p siblings = node pair leaf D 0) :
    v = node pair leaf d p ∧ siblings =
      (List.range siblings.length).map fun j => sibling pair leaf (p * 2 ^ d) (d + j) := by
  induction siblings generalizing v p d with
  | nil =>
    obtain rfl : d = D := hlen
    rw [Nat.sub_self, pow_zero, Nat.lt_one_iff] at hp
    rw [hp]
    exact ⟨h, rfl⟩
  | cons s siblings ih =>
    rw [List.length_cons] at hlen
    have hpow : 2 ^ (D - d) = 2 * 2 ^ (D - (d + 1)) := by
      rw [← pow_succ']
      congr 1
      omega
    obtain ⟨hparent, hrest⟩ : lift pair v p s = node pair leaf (d + 1) (p / 2) ∧ siblings =
        (List.range siblings.length).map fun j =>
          sibling pair leaf (p / 2 * 2 ^ (d + 1)) (d + 1 + j) := by
      refine ih (hinj.mono (Set.union_subset_union_right _ ?_)) (by omega) (by omega) h
      exact Set.subset_insert _ _
    have hnode : (node pair leaf d (2 * (p / 2)), node pair leaf d (2 * (p / 2) + 1)) ∈
        nodePairs pair leaf D ∪ climbPairs pair v p (s :: siblings) := by
      refine .inl ⟨d, p / 2, by omega, ?_, rfl⟩
      rw [show D - 1 - d = D - (d + 1) by omega]
      omega
    have hstep : (if p % 2 = 0 then (v, s) else (s, v)) ∈
        nodePairs pair leaf D ∪ climbPairs pair v p (s :: siblings) :=
      .inr (Set.mem_insert _ _)
    have hhere : v = node pair leaf d p ∧ s = sibling pair leaf (p * 2 ^ d) (d + 0) := by
      rw [sibling, mul_pow_div, pow_zero, Nat.div_one, add_zero]
      rw [lift] at hparent
      by_cases heven : p % 2 = 0
      · rw [if_pos heven] at hparent hstep ⊢
        have heq := Prod.mk.inj (hinj hstep hnode hparent)
        rwa [show 2 * (p / 2) = p by omega] at heq
      · rw [if_neg heven] at hparent hstep ⊢
        have heq := Prod.mk.inj (hinj hstep hnode hparent)
        rw [show 2 * (p / 2) + 1 = p by omega, show 2 * (p / 2) = p - 1 by omega] at heq
        exact heq.symm
    refine ⟨hhere.1, ?_⟩
    rw [List.length_cons, List.range_succ_eq_map, List.map_cons, List.map_map, ← hhere.2]
    congr 1
    refine hrest.trans (List.map_congr_left fun j _ => ?_)
    -- The position one level up, brought back to the level of the leaf, has the same siblings.
    change sibling pair leaf _ (d + 1 + j) = sibling pair leaf _ (d + (j + 1))
    rw [sibling, sibling, mul_pow_div, mul_pow_div, show d + 1 + j = d + (j + 1) by omega,
      pow_succ', Nat.div_div_eq_div_mul]

theorem climb_mod (v : α) (p : ℕ) (siblings : List α) :
    climb pair v (p % 2 ^ siblings.length) siblings = climb pair v p siblings := by
  induction siblings generalizing v p with
  | nil => rfl
  | cons s siblings ih =>
    rw [climb, climb, ← ih _ (p / 2), List.length_cons, pow_succ', Nat.mod_mul_right_div_self, lift,
      lift, Nat.mod_mul_right_mod]

theorem climbPairs_mod (v : α) (p : ℕ) (siblings : List α) :
    climbPairs pair v (p % 2 ^ siblings.length) siblings = climbPairs pair v p siblings := by
  induction siblings generalizing v p with
  | nil => rfl
  | cons s siblings ih =>
    rw [climbPairs, climbPairs, ← ih _ (p / 2), List.length_cons, pow_succ',
      Nat.mod_mul_right_div_self, lift, lift, Nat.mod_mul_right_mod]

theorem sibling_update (leaf : ℕ → α) (p d : ℕ) (v : α) :
    sibling pair (Function.update leaf p v) p d = sibling pair leaf p d := by
  have hother {q : ℕ} (hq : q < p / 2 ^ d ∨ p / 2 ^ d < q) :
      node pair (Function.update leaf p v) d q = node pair leaf d q := by
    refine node_congr fun k hk hk' => Function.update_of_ne ?_ _ _
    intro hkp
    rw [hkp] at hk hk'
    have hupper : p / 2 ^ d < q + 1 := Nat.div_lt_of_lt_mul (by rwa [mul_comm])
    have hlower : q ≤ p / 2 ^ d := (Nat.le_div_iff_mul_le (Nat.two_pow_pos d)).mpr hk
    omega
  rw [sibling, sibling]
  by_cases heven : p / 2 ^ d % 2 = 0
  · rw [if_pos heven, if_pos heven, hother (Or.inr (Nat.lt_succ_self _))]
  · have hpos : 0 < p / 2 ^ d := Nat.pos_of_ne_zero fun h0 => heven (by rw [h0])
    rw [if_neg heven, if_neg heven, hother (Or.inl (Nat.sub_one_lt_of_lt hpos))]

theorem climb_update (leaf : ℕ → α) (p d : ℕ) (v : α) :
    climb pair v p (path pair leaf p d) = node pair (Function.update leaf p v) d (p / 2 ^ d) := by
  have hpath : path pair (Function.update leaf p v) p d = path pair leaf p d :=
    List.map_congr_left fun e _ => sibling_update leaf p e v
  rw [← climb_path, hpath, Function.update_self]

def climbSteps (pair : α → α → α) (v : α) (p : ℕ) : List α → List (α × α)
  | [] => []
  | s :: siblings =>
    (if p % 2 = 0 then (v, s) else (s, v)) :: climbSteps pair (lift pair v p s) (p / 2) siblings

/-- Two climbs of the same height from one position that collide at no level have different ends,
unless they are the same. -/
theorem climb_injective {v w : α} {p : ℕ} {ss ts : List α}
    (hsteps : List.Forall₂ (fun q r : α × α => pair q.1 q.2 = pair r.1 r.2 → q = r)
      (climbSteps pair v p ss) (climbSteps pair w p ts))
    (h : climb pair v p ss = climb pair w p ts) : v = w ∧ ss = ts := by
  induction ss generalizing v w p ts with
  | nil =>
    cases ts with
    | nil => exact ⟨h, rfl⟩
    | cons t ts => cases hsteps
  | cons s ss ih =>
    cases ts with
    | nil => cases hsteps
    | cons t ts =>
      rw [climbSteps, climbSteps, List.forall₂_cons] at hsteps
      obtain ⟨hlift, hrest⟩ := ih hsteps.2 h
      rw [lift, lift] at hlift
      by_cases heven : p % 2 = 0
      · rw [if_pos heven, if_pos heven] at hlift hsteps
        obtain ⟨hv, hs⟩ := Prod.mk.inj (hsteps.1 hlift)
        exact ⟨hv, congrArg₂ List.cons hs hrest⟩
      · rw [if_neg heven, if_neg heven] at hlift hsteps
        obtain ⟨hs, hv⟩ := Prod.mk.inj (hsteps.1 hlift)
        exact ⟨hv, congrArg₂ List.cons hs hrest⟩

section Selected

variable {P : ℕ → Prop} [DecidablePred P] {f : ℕ → α}

/-- The values of the levels below `i` that are selected, lowest first. -/
def selected (P : ℕ → Prop) [DecidablePred P] (f : ℕ → α) (i : ℕ) : List α :=
  ((List.range i).filter P).map f

theorem selected_succ (f : ℕ → α) (i : ℕ) :
    selected P f (i + 1) = selected P f i ++ if P i then [f i] else [] := by
  rw [selected, List.range_succ, List.filter_append, List.map_append, selected]
  by_cases h : P i
  · simp [h]
  · simp [h]

theorem selected_get {i : ℕ} (h : P i) (k : ℕ) (hi : i < k) :
    (selected P f k)[(selected P f i).length]? = some (f i) := by
  induction k with
  | zero => exact absurd hi (Nat.not_lt_zero _)
  | succ k ih =>
    rw [selected_succ]
    rcases Nat.lt_succ_iff_lt_or_eq.mp hi with hlt | rfl
    · have hget := ih hlt
      rw [List.getElem?_append_left (List.getElem?_eq_some_iff.mp hget).1]
      exact hget
    · rw [if_pos h, List.getElem?_concat_length]

theorem selected_length (f : ℕ → α) (i : ℕ) : (selected P f i).length = Nat.count P i := by
  induction i with
  | zero => rfl
  | succ i ih =>
    rw [selected_succ, List.length_append, ih, Nat.count_succ]
    by_cases h : P i
    · rw [if_pos h, if_pos h, List.length_singleton]
    · rw [if_neg h, if_neg h, List.length_nil]

end Selected

section Append

variable {empty : ℕ → α} {D i : ℕ} {xs : List α} {v : α}

/-- What an append-only tree with `n` leaves keeps at height `i`: the complete subtree to the
left of the next leaf, if there is one. -/
def frontier (pair : α → α → α) (empty leaf : ℕ → α) (n i : ℕ) : α :=
  if n.testBit i then node pair leaf i (n / 2 ^ i - 1) else empty i

theorem frontier_zero (pair : α → α → α) (empty leaf : ℕ → α) (i : ℕ) :
    frontier pair empty leaf 0 i = empty i := by
  rw [frontier, Nat.zero_testBit, if_neg Bool.false_ne_true]

theorem testBit_iff (n i : ℕ) : n.testBit i = true ↔ n / 2 ^ i % 2 = 1 := by
  rw [Nat.testBit_eq_decide_div_mod_eq, decide_eq_true_eq]

theorem one_le_div_of_testBit {n i : ℕ} (h : n.testBit i = true) : 1 ≤ n / 2 ^ i := by
  have hodd := (testBit_iff n i).mp h
  exact Nat.pos_of_ne_zero fun h0 => by rw [h0] at hodd; cases hodd

/-- A bit changes from `n` to `n + 1` if all the lower bits of `n` are set. -/
theorem changes_iff (n i : ℕ) : (n ^^^ (n + 1)).testBit i = true ↔ 2 ^ i ∣ n + 1 := by
  have hdiv : (n + 1) / 2 ^ i = n / 2 ^ i + if 2 ^ i ∣ n + 1 then 1 else 0 := Nat.succ_div
  rw [Nat.testBit_xor, Nat.testBit_eq_decide_div_mod_eq, Nat.testBit_eq_decide_div_mod_eq]
  by_cases h : 2 ^ i ∣ n + 1
  · rw [if_pos h] at hdiv
    simp only [h, iff_true, bne_iff_ne, ne_eq, decide_eq_decide]
    omega
  · rw [if_neg h] at hdiv
    simp only [h, iff_false, bne_iff_ne, ne_eq, not_not, decide_eq_decide]
    omega

theorem node_append {zero : α} {j : ℕ} (h : (j + 1) * 2 ^ i ≤ xs.length) (ys : List α) :
    node pair (leaves zero (xs ++ ys)) i j = node pair (leaves zero xs) i j := by
  refine node_congr fun k _ hk => ?_
  exact List.getD_append _ _ _ _ (lt_of_lt_of_le hk h)

theorem node_beyond (xs : List α) {j : ℕ} (hc : Consistent pair empty D) (hi : i ≤ D)
    (h : xs.length ≤ j * 2 ^ i) : node pair (leaves (empty 0) xs) i j = empty i :=
  node_empty hc hi fun _ hk _ => List.getD_eq_default _ _ (h.trans hk)

theorem mul_div_pow_le (n i : ℕ) : n / 2 ^ i * 2 ^ i ≤ n := Nat.div_mul_le_self _ _

theorem lt_div_pow_succ (n i : ℕ) : n < (n / 2 ^ i + 1) * 2 ^ i := by
  have := Nat.lt_div_mul_add (a := n) (Nat.two_pow_pos i)
  rwa [add_mul, one_mul]

/-- What the tree keeps after an append: it changes at the heights where a bit of the number of
leaves does. -/
theorem frontier_append :
    frontier pair empty (leaves (empty 0) (xs ++ [v])) (xs.length + 1) i =
      if 2 ^ i ∣ xs.length + 1 then
        if xs.length / 2 ^ i % 2 = 0 then
          node pair (leaves (empty 0) (xs ++ [v])) i (xs.length / 2 ^ i)
        else empty i
      else frontier pair empty (leaves (empty 0) xs) xs.length i := by
  have hdiv : (xs.length + 1) / 2 ^ i =
      xs.length / 2 ^ i + if 2 ^ i ∣ xs.length + 1 then 1 else 0 := Nat.succ_div
  by_cases hc : 2 ^ i ∣ xs.length + 1
  · rw [if_pos hc] at hdiv ⊢
    rw [frontier]
    by_cases heven : xs.length / 2 ^ i % 2 = 0
    · rw [if_pos heven, if_pos ((testBit_iff _ _).mpr (by omega)), hdiv, Nat.add_sub_cancel]
    · rw [if_neg heven, if_neg (fun h => by have := (testBit_iff _ _).mp h; omega)]
  · rw [if_neg hc] at hdiv ⊢
    rw [add_zero] at hdiv
    rw [frontier, frontier, hdiv]
    by_cases hbit : xs.length.testBit i = true
    · have hodd := (testBit_iff _ _).mp hbit
      have hle := mul_div_pow_le xs.length i
      rw [if_pos hbit, if_pos ((testBit_iff _ _).mpr (by rw [hdiv]; exact hodd)), node_append]
      rwa [Nat.sub_add_cancel (one_le_div_of_testBit hbit)]
    · have hbit' : ¬ (xs.length + 1).testBit i = true := fun h =>
        hbit ((testBit_iff _ _).mpr (hdiv ▸ (testBit_iff _ _).mp h))
      rw [if_neg hbit, if_neg hbit']

theorem frontier_unmoved {ys : List α} (h : (xs ++ ys).length / 2 ^ i = xs.length / 2 ^ i) :
    frontier pair empty (leaves (empty 0) (xs ++ ys)) (xs ++ ys).length i =
      frontier pair empty (leaves (empty 0) xs) xs.length i := by
  have hbit : (xs ++ ys).length.testBit i = xs.length.testBit i := by
    rw [Nat.testBit_eq_decide_div_mod_eq, Nat.testBit_eq_decide_div_mod_eq, h]
  rw [frontier, frontier, hbit, h]
  by_cases hset : xs.length.testBit i = true
  · rw [if_pos hset, if_pos hset, node_append]
    rw [Nat.sub_add_cancel (one_le_div_of_testBit hset)]
    exact mul_div_pow_le xs.length i
  · rw [if_neg hset, if_neg hset]

/-- What the tree keeps are the siblings of its next leaf. -/
theorem sibling_next (xs : List α) (hc : Consistent pair empty D) (hi : i ≤ D) :
    sibling pair (leaves (empty 0) xs) xs.length i =
      frontier pair empty (leaves (empty 0) xs) xs.length i := by
  rw [sibling, frontier]
  by_cases heven : xs.length / 2 ^ i % 2 = 0
  · have hclear : ¬ xs.length.testBit i = true := fun h => by
      have := (testBit_iff _ _).mp h
      omega
    rw [if_pos heven, if_neg hclear, node_beyond _ hc hi (lt_div_pow_succ _ _).le]
  · rw [if_neg heven, if_pos ((testBit_iff _ _).mpr (by omega))]

end Append

end MerkleTree
