import Mathlib.Data.List.Nodup
import PsyDogeBridge.MerkleTree

/-! Merkle trees over any two-to-one hash in which a level with an odd number of nodes pairs its
last node with itself, and the check of a path that tells the copy from the node. -/
namespace DuplicatedTree

open MerkleTree

variable {α : Type*}

/-- The nodes of a level two by two; a last one that is alone is taken twice. -/
def pairsOf : List α → List (α × α)
  | [] => []
  | [x] => [(x, x)]
  | x :: y :: rest => (x, y) :: pairsOf rest

def layer (pair : α → α → α) (xs : List α) : List α := (pairsOf xs).map fun q => pair q.1 q.2

inductive HasRoot (pair : α → α → α) : List α → ℕ → α → Prop where
  | leaf (x : α) : HasRoot pair [x] 0 x
  | level {xs k r} (several : 2 ≤ xs.length) (above : HasRoot pair (layer pair xs) k r) :
      HasRoot pair xs (k + 1) r

/-- The pairs that are hashed on the lowest `k` levels over `xs`. -/
def treePairs (pair : α → α → α) : ℕ → List α → Set (α × α)
  | 0, _ => ∅
  | k + 1, xs => { q | q ∈ pairsOf xs } ∪ treePairs pair k (layer pair xs)

/-- The node that node `i` of a level is hashed with. -/
def siblingOf (xs : List α) (i : ℕ) : Option α :=
  if i % 2 = 0 then xs[i + 1]?.or xs[i]? else xs[i - 1]?

/-- These are the siblings on the way up from node `i`, lowest first. -/
def IsPath (pair : α → α → α) : List α → ℕ → List α → Prop
  | _, _, [] => True
  | xs, i, s :: siblings => siblingOf xs i = some s ∧ IsPath pair (layer pair xs) (i / 2) siblings

/-- The root that a path leads to. A node on the right that equals its left sibling is the copy of
it, and a position that is left over is outside the tree. -/
def checkedClimb [DecidableEq α] (pair : α → α → α) (v : α) (i : ℕ) : List α → Option α
  | [] => if i = 0 then some v else none
  | s :: siblings =>
    if i % 2 = 1 ∧ s = v then none else checkedClimb pair (lift pair v i s) (i / 2) siblings

variable {pair : α → α → α} {xs : List α} {v s : α} {i k : ℕ}

theorem pairsOf_getElem? (xs : List α) (j : ℕ) :
    (pairsOf xs)[j]? = xs[2 * j]?.map fun x => (x, xs[2 * j + 1]?.getD x) := by
  induction xs using pairsOf.induct generalizing j with
  | case1 => rfl
  | case2 x =>
    cases j with
    | zero => rfl
    | succ j => rfl
  | case3 x y rest ih =>
    cases j with
    | zero => rfl
    | succ j =>
      rw [pairsOf, List.getElem?_cons_succ, ih]
      rfl

theorem map_fst_pairsOf (xs : List α) : ((pairsOf xs).map Prod.fst).Sublist xs := by
  induction xs using pairsOf.induct with
  | case1 => exact .slnil
  | case2 x => exact .refl _
  | case3 x y rest ih => exact (ih.cons y).cons_cons x

theorem layer_nodup (hinj : Set.InjOn (fun q : α × α => pair q.1 q.2) { q | q ∈ pairsOf xs })
    (h : xs.Nodup) : (layer pair xs).Nodup := by
  have hpairs : (pairsOf xs).Nodup :=
    List.Nodup.of_map Prod.fst (h.sublist (map_fst_pairsOf xs))
  refine List.Nodup.map_on ?_ hpairs
  intro p hp q hq heq
  exact hinj hp hq heq

def stepPair (v : α) (i : ℕ) (s : α) : α × α := if i % 2 = 0 then (v, s) else (s, v)

theorem lift_eq (v : α) (i : ℕ) (s : α) :
    lift pair v i s = pair (stepPair v i s).1 (stepPair v i s).2 := by
  unfold lift stepPair
  split
  · rfl
  · rfl

theorem pairsOf_of_sibling (hv : xs[i]? = some v) (hs : siblingOf xs i = some s) :
    (pairsOf xs)[i / 2]? = some (stepPair v i s) := by
  rw [siblingOf] at hs
  rw [pairsOf_getElem?, stepPair]
  by_cases heven : i % 2 = 0
  · have hi : 2 * (i / 2) = i := by omega
    rw [if_pos heven, hv] at hs
    rw [if_pos heven, hi, hv, Option.map_some]
    cases hy : xs[i + 1]? with
    | none =>
      rw [hy] at hs
      cases hs
      rfl
    | some y =>
      rw [hy] at hs
      cases hs
      rfl
  · have hi : 2 * (i / 2) = i - 1 := by omega
    have hsucc : i - 1 + 1 = i := by omega
    rw [if_neg heven] at hs
    rw [if_neg heven, hi, hs, hsucc, hv]
    rfl

theorem pairsOf_stepPair (hcopy : ¬ (i % 2 = 1 ∧ s = v)) :
    (pairsOf xs)[i / 2]? = some (stepPair v i s) ↔ xs[i]? = some v ∧ siblingOf xs i = some s := by
  constructor
  · intro hq
    rw [pairsOf_getElem?, Option.map_eq_some_iff, stepPair] at hq
    obtain ⟨x, hx, heq⟩ := hq
    rw [siblingOf]
    by_cases heven : i % 2 = 0
    · have hi : 2 * (i / 2) = i := by omega
      rw [if_pos heven, hi, Prod.mk.injEq] at heq
      obtain ⟨rfl, rfl⟩ := heq
      rw [hi] at hx
      rw [if_pos heven, hx]
      cases xs[i + 1]? with
      | none => exact ⟨rfl, rfl⟩
      | some y => exact ⟨rfl, rfl⟩
    · have hi : 2 * (i / 2) = i - 1 := by omega
      have hsucc : i - 1 + 1 = i := by omega
      rw [if_neg heven, hi, hsucc, Prod.mk.injEq] at heq
      obtain ⟨rfl, hv⟩ := heq
      rw [hi] at hx
      rw [if_neg heven]
      cases hy : xs[i]? with
      | none =>
        rw [hy] at hv
        exact absurd ⟨by omega, hv⟩ hcopy
      | some y =>
        rw [hy] at hv
        cases hv
        exact ⟨rfl, hx⟩
  · rintro ⟨hv, hs⟩
    exact pairsOf_of_sibling hv hs

/-- Without a collision only a node and its sibling lead to the node above them. -/
theorem layer_lift
    (hinj : Set.InjOn (fun q : α × α => pair q.1 q.2)
      (insert (stepPair v i s) { q | q ∈ pairsOf xs }))
    (hcopy : ¬ (i % 2 = 1 ∧ s = v)) :
    (layer pair xs)[i / 2]? = some (lift pair v i s) ↔
      xs[i]? = some v ∧ siblingOf xs i = some s := by
  rw [← pairsOf_stepPair hcopy, layer, List.getElem?_map, lift_eq, Option.map_eq_some_iff]
  constructor
  · rintro ⟨q, hq, heq⟩
    have hmem : q ∈ pairsOf xs := List.mem_of_getElem? hq
    rw [hq, hinj (.inr hmem) (.inl rfl) heq]
  · intro hq
    exact ⟨_, hq, rfl⟩

theorem sibling_ne (h : xs.Nodup) (hodd : i % 2 = 1) (hv : xs[i]? = some v) :
    siblingOf xs i ≠ some v := by
  have hneven : ¬ i % 2 = 0 := by omega
  rw [siblingOf, if_neg hneven]
  intro hs
  obtain ⟨hi, rfl⟩ := List.getElem?_eq_some_iff.mp hv
  obtain ⟨hi', heq⟩ := List.getElem?_eq_some_iff.mp hs
  have := (h.getElem_inj_iff).mp heq
  omega

section Paths

variable [DecidableEq α] {siblings : List α} {r : α}

/-- Without a collision exactly the true paths of the nodes of the tree lead to its root. The copies
that fill up the levels have no path. -/
theorem checkedClimb_eq_some_iff (h : HasRoot pair xs k r) (hnodup : xs.Nodup)
    (hlen : siblings.length = k)
    (hinj : Set.InjOn (fun q : α × α => pair q.1 q.2)
      (treePairs pair k xs ∪ climbPairs pair v i siblings)) :
    checkedClimb pair v i siblings = some r ↔ xs[i]? = some v ∧ IsPath pair xs i siblings := by
  induction h generalizing v i siblings with
  | leaf x =>
    obtain rfl := List.eq_nil_of_length_eq_zero hlen
    rw [checkedClimb]
    cases i with
    | zero => simp [IsPath, eq_comm]
    | succ i => simp
  | @level xs k r several above ih =>
    cases siblings with
    | nil => cases hlen
    | cons s siblings =>
      rw [List.length_cons, Nat.add_right_cancel_iff] at hlen
      rw [checkedClimb, IsPath]
      by_cases hcopy : i % 2 = 1 ∧ s = v
      · obtain ⟨hodd, rfl⟩ := hcopy
        rw [if_pos ⟨hodd, rfl⟩]
        simp only [reduceCtorEq, false_iff, not_and]
        intro hv hs
        exact absurd hs (sibling_ne hnodup hodd hv)
      · have hlevel : Set.InjOn (fun q : α × α => pair q.1 q.2)
            (insert (stepPair v i s) { q | q ∈ pairsOf xs }) := by
          refine hinj.mono (Set.insert_subset (.inr (Set.mem_insert _ _)) ?_)
          intro q hq
          exact .inl (.inl hq)
        have habove : Set.InjOn (fun q : α × α => pair q.1 q.2)
            (treePairs pair k (layer pair xs) ∪
              climbPairs pair (lift pair v i s) (i / 2) siblings) :=
          hinj.mono (Set.union_subset_union (fun _ => .inr) (fun _ => .inr))
        have hnodup' := layer_nodup (hlevel.mono (Set.subset_insert _ _)) hnodup
        rw [if_neg hcopy, ih hnodup' hlen habove, layer_lift hlevel hcopy, and_assoc]

end Paths

end DuplicatedTree
