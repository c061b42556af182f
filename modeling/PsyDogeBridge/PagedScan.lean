import Mathlib.Data.List.Nodup
import Mathlib.Data.List.Perm.Basic
import Mathlib.Data.Nat.Find
import Mathlib.Tactic.Ring
import PsyDogeBridge.PolledLog

/-! A log that is read page by page through a filter, by a reader who sees only what passes the
filter. The reader asks for the page after the last entry that passed, and stops at the first page
of which less than what was asked for passed. -/
namespace PagedScan

open PolledLog

variable {τ κ α ε : Type*} [DecidableEq κ]

/-- The loop of the reader, with the requests that it may still make. -/
def scan (readPage : Option κ → Except ε (List α)) (cursor : α → κ) (n : ℕ) :
    ℕ → Option κ → List α → Option (Except ε (List α))
  | 0, _, _ => none
  | requests + 1, before, all =>
    match readPage before with
    | .error e => some (.error e)
    | .ok found =>
      if found.isEmpty then some (.ok all)
      else if found.length < n then some (.ok (all ++ found))
      else scan readPage cursor n requests (found.getLast?.map cursor) (all ++ found)

variable {f : τ → Option α} {key : τ → κ} {cursor : α → κ} {log : List τ} {size : ℕ → ℕ} {n : ℕ}

section Pages

def pageAt (log : List τ) (size : ℕ → ℕ) (p : ℕ) : List τ := (log.drop p).take (size p)

/-- All that was asked for passed the filter. -/
def Full (f : τ → Option α) (log : List τ) (size : ℕ → ℕ) (n p : ℕ) : Prop :=
  ((pageAt log size p).filterMap f).length = n

instance (f : τ → Option α) (log : List τ) (size : ℕ → ℕ) (n p : ℕ) :
    Decidable (Full f log size n p) := inferInstanceAs (Decidable (_ = _))

variable {p : ℕ}

theorem full_congr {β : Type*} {g : τ → Option β} (h : ∀ t ∈ log, (f t).isSome = (g t).isSome) :
    Full f log size n p ↔ Full g log size n p := by
  have hcount : (pageAt log size p).countP (fun t => (f t).isSome) =
      (pageAt log size p).countP fun t => (g t).isSome := by
    apply List.countP_congr
    intro t ht
    rw [h t (List.mem_of_mem_drop (List.mem_of_mem_take ht))]
  rw [Full, Full, List.length_filterMap_eq_countP, List.length_filterMap_eq_countP, hcount]

theorem Full.all (h : Full f log size n p) (hsize : ∀ p, size p ≤ n) :
    (pageAt log size p).length = n ∧ ∀ t ∈ pageAt log size p, (f t).isSome := by
  have hle : (pageAt log size p).length ≤ n := (List.length_take_le _ _).trans (hsize p)
  have hge : n ≤ (pageAt log size p).length := h ▸ List.length_filterMap_le f _
  have heq := le_antisymm hle hge
  exact ⟨heq, List.filterMap_length_eq_length.mp (h.trans heq.symm)⟩

theorem pageAt_of_length (h : (pageAt log size p).length = n) : pageAt log size p =
    (log.drop p).take n := by
  rw [pageAt, List.take_eq_take_iff, ← h, pageAt, List.length_take]
  omega

theorem Full.passed (h : Full f log size n p) (hsize : ∀ p, size p ≤ n) :
    p + n ≤ log.length ∨ n = 0 := by
  have hlen := (h.all hsize).1
  rw [pageAt, List.length_take, List.length_drop] at hlen
  omega

theorem Full.cursor_at (h : Full f log size n p) (hsize : ∀ p, size p ≤ n) (hn : 1 ≤ n)
    (distinct : (log.map key).Nodup) (hcursor : ∀ t a, f t = some a → cursor a = key t) :
    ∃ k, ((pageAt log size p).filterMap f).getLast?.map cursor = some k ∧
      since key log (some k) = log.drop (p + n) := by
  obtain ⟨hlen, hall⟩ := h.all hsize
  have hne : pageAt log size p ≠ [] := by
    rw [← List.length_pos_iff_ne_nil, hlen]
    exact hn
  obtain ⟨init, t, hpage⟩ := (List.eq_nil_or_concat' _).resolve_left hne
  rw [hpage] at hall
  obtain ⟨a, ha⟩ := Option.isSome_iff_exists.mp (hall t (by simp))
  refine ⟨key t, ?_, ?_⟩
  · rw [hpage, List.filterMap_append, List.getLast?_append]
    simp [ha, hcursor t a ha]
  · have hlog : log = (log.take p ++ init) ++ t :: log.drop (p + n) := by
      have hsplit : init ++ [t] ++ log.drop (p + n) = log.drop p := by
        rw [← hpage, pageAt_of_length hlen, ← List.drop_drop, List.take_append_drop]
      rw [List.append_assoc, ← List.singleton_append, ← List.append_assoc init, hsplit,
        List.take_append_drop]
    generalize log.take p = old at hlog
    generalize log.drop (p + n) = rest at hlog ⊢
    subst hlog
    exact since_split (old_ne distinct)

theorem exists_short (f : τ → Option α) (log : List τ) (hsize : ∀ p, size p ≤ n) (hn : 1 ≤ n) :
    ∃ i, (∀ j < i, Full f log size n (j * n)) ∧ ¬ Full f log size n (i * n) := by
  have hshort : ∃ i, ¬ Full f log size n (i * n) := by
    refine ⟨log.length, fun hfull => ?_⟩
    have hmul : log.length * 1 ≤ log.length * n := Nat.mul_le_mul_left _ hn
    rcases hfull.passed hsize with hle | hzero <;> omega
  refine ⟨Nat.find hshort, ?_, Nat.find_spec hshort⟩
  intro j hj
  exact not_not.mp (Nat.find_min hshort hj)

theorem short_unique {i j : ℕ} (hi : ∀ k < i, Full f log size n (k * n))
    (hi' : ¬ Full f log size n (i * n)) (hj : ∀ k < j, Full f log size n (k * n))
    (hj' : ¬ Full f log size n (j * n)) : i = j := by
  rcases lt_trichotomy i j with h | h | h
  · exact absurd (hj i h) hi'
  · exact h
  · exact absurd (hi j h) hj'

end Pages

section Scan

variable {readPage : Option κ → Except ε (List α)}

def ReadsPages (readPage : Option κ → Except ε (List α)) (key : τ → κ) (f : τ → Option α)
    (log : List τ) (size : ℕ → ℕ) : Prop :=
  ∀ before p, since key log before = log.drop p →
    readPage before = .ok ((pageAt log size p).filterMap f)

section

variable (hread : ReadsPages readPage key f log size)
include hread

theorem scan_full {p requests : ℕ} {before : Option κ} {all : List α}
    (hbefore : since key log before = log.drop p) (hfull : Full f log size n p) (hn : 1 ≤ n) :
    scan readPage cursor n (requests + 1) before all =
      scan readPage cursor n requests (((pageAt log size p).filterMap f).getLast?.map cursor)
        (all ++ (pageAt log size p).filterMap f) := by
  have hlen : ((pageAt log size p).filterMap f).length = n := hfull
  have hne : ¬ ((pageAt log size p).filterMap f).isEmpty = true := by
    rw [List.isEmpty_iff_length_eq_zero]
    omega
  rw [scan, hread before p hbefore]
  simp only [if_neg hne, hlen, lt_irrefl, if_false]

theorem scan_short {p requests : ℕ} {before : Option κ} {all : List α} (hsize : ∀ p, size p ≤ n)
    (hbefore : since key log before = log.drop p) (hshort : ¬ Full f log size n p) :
    scan readPage cursor n (requests + 1) before all =
      some (.ok (all ++ (pageAt log size p).filterMap f)) := by
  have hle : ((pageAt log size p).filterMap f).length ≤ n :=
    (List.length_filterMap_le f _).trans ((List.length_take_le _ _).trans (hsize p))
  have hlt : ((pageAt log size p).filterMap f).length < n := lt_of_le_of_ne hle hshort
  rw [scan, hread before p hbefore]
  by_cases hempty : ((pageAt log size p).filterMap f).isEmpty = true
  · rw [List.isEmpty_iff.mp hempty, List.append_nil]
    rfl
  · simp only [if_neg hempty, if_pos hlt]

/-- The reader arrives behind any number of full pages, with all that passed the filter there. -/
theorem scan_full_pages (hsize : ∀ p, size p ≤ n) (hn : 1 ≤ n) (distinct : (log.map key).Nodup)
    (hcursor : ∀ t a, f t = some a → cursor a = key t) (i requests : ℕ)
    (hfull : ∀ j < i, Full f log size n (j * n)) :
    ∃ before, since key log before = log.drop (i * n) ∧
      scan readPage cursor n (requests + i) none [] =
        scan readPage cursor n requests before ((log.take (i * n)).filterMap f) := by
  induction i generalizing requests with
  | zero => exact ⟨none, by simp [since], by simp⟩
  | succ i ih =>
    obtain ⟨before, hbefore, hscan⟩ := ih (requests + 1) fun j hj => hfull j (by omega)
    have hi := hfull i (Nat.lt_succ_self i)
    obtain ⟨k, hk, hsince⟩ := hi.cursor_at hsize hn distinct hcursor
    have hpos : i * n + n = (i + 1) * n := by ring
    have htake : log.take (i * n) ++ pageAt log size (i * n) = log.take ((i + 1) * n) := by
      rw [pageAt_of_length (hi.all hsize).1, ← hpos, List.take_add]
    refine ⟨some k, hpos ▸ hsince, ?_⟩
    rw [show requests + (i + 1) = requests + 1 + i by omega, hscan, scan_full hread hbefore hi hn,
      hk, ← List.filterMap_append, htake]

/-- The loop ends, and what it returns is what passed the filter up to the end of the first page
that was not full. -/
theorem scan_result (hsize : ∀ p, size p ≤ n) (hn : 1 ≤ n) (distinct : (log.map key).Nodup)
    (hcursor : ∀ t a, f t = some a → cursor a = key t) {i : ℕ}
    (hfull : ∀ j < i, Full f log size n (j * n)) (hshort : ¬ Full f log size n (i * n))
    {requests : ℕ} (hrequests : i < requests) :
    scan readPage cursor n requests none [] =
      some (.ok ((log.take (i * n + size (i * n))).filterMap f)) := by
  obtain ⟨rest, rfl⟩ : ∃ rest, requests = rest + 1 + i := ⟨requests - i - 1, by omega⟩
  obtain ⟨before, hbefore, hscan⟩ :=
    scan_full_pages hread hsize hn distinct hcursor i (rest + 1) hfull
  rw [hscan, scan_short hread hsize hbefore hshort, ← List.filterMap_append, pageAt,
    ← List.take_add]

end

end Scan

section Drain

variable {σ : Type*}

/-- The loop of a reader that stops only at an empty page. What it has visited so far decides what
it asks for. -/
def drain (readPage : σ → Except ε (List α)) (visit : σ → α → Except ε σ) :
    ℕ → σ → Option (Except ε σ)
  | 0, _ => none
  | requests + 1, s =>
    match readPage s with
    | .error e => some (.error e)
    | .ok page =>
      if page.isEmpty then some (.ok s)
      else
        match page.foldlM visit s with
        | .error e => some (.error e)
        | .ok s' => drain readPage visit requests s'

theorem since_take (distinct : (log.map key).Nodup) (p : ℕ) :
    since key log ((log.take p).getLast?.map key) = log.drop p := by
  rcases List.eq_nil_or_concat' (log.take p) with hnil | ⟨init, t, htake⟩
  · have hdrop : log.drop p = log := by
      have hsplit := List.take_append_drop p log
      rwa [hnil, List.nil_append] at hsplit
    rw [hnil, hdrop]
    rfl
  · have hlog : log = init ++ t :: log.drop p := by
      rw [← List.singleton_append, ← List.append_assoc, ← htake, List.take_append_drop]
    rw [htake, List.getLast?_concat, Option.map_some]
    generalize log.drop p = rest at hlog
    subst hlog
    exact since_split (old_ne distinct)

variable {name : τ → α} {step : σ → τ → σ} {readPage : σ → Except ε (List α)}
  {visit : σ → α → Except ε σ} {start : σ}

theorem foldlM_visits {ts : List τ} (s : σ)
    (hvisit : ∀ s, ∀ t ∈ ts, visit s (name t) = .ok (step s t)) :
    (ts.map name).foldlM visit s = .ok (ts.foldl step s) := by
  induction ts generalizing s with
  | nil => rfl
  | cons t ts ih =>
    rw [List.map_cons, List.foldlM_cons, hvisit s t List.mem_cons_self]
    exact ih (step s t) fun s u hu => hvisit s u (List.mem_cons_of_mem _ hu)

theorem drain_from (hsize : ∀ p, 1 ≤ size p)
    (hread : ∀ p, readPage ((log.take p).foldl step start) = .ok ((pageAt log size p).map name))
    (hvisit : ∀ s, ∀ t ∈ log, visit s (name t) = .ok (step s t)) {requests p : ℕ}
    (hrequests : log.length - p < requests) :
    drain readPage visit requests ((log.take p).foldl step start) =
      some (.ok (log.foldl step start)) := by
  induction requests generalizing p with
  | zero => omega
  | succ requests ih =>
    rw [drain, hread p]
    by_cases hend : log.length ≤ p
    · have hpage : pageAt log size p = [] := by
        rw [pageAt, List.drop_eq_nil_of_le hend, List.take_nil]
      rw [hpage, List.take_of_length_le hend]
      rfl
    · have hpos := hsize p
      have hpage : ¬ ((pageAt log size p).map name).isEmpty = true := by
        rw [List.isEmpty_iff_length_eq_zero, List.length_map, pageAt, List.length_take,
          List.length_drop]
        omega
      have hfold : ((pageAt log size p).map name).foldlM visit ((log.take p).foldl step start) =
          .ok ((log.take (p + size p)).foldl step start) := by
        have hmem : ∀ t ∈ pageAt log size p, t ∈ log := fun t ht =>
          List.mem_of_mem_drop (List.mem_of_mem_take ht)
        rw [foldlM_visits _ fun s t ht => hvisit s t (hmem t ht), ← List.foldl_append, pageAt,
          ← List.take_add]
      simp only [if_neg hpage, hfold]
      exact ih (by omega)

/-- The reader visits the whole log, whatever the sizes of the pages are. -/
theorem drain_all (hsize : ∀ p, 1 ≤ size p)
    (hread : ∀ p, readPage ((log.take p).foldl step start) = .ok ((pageAt log size p).map name))
    (hvisit : ∀ s, ∀ t ∈ log, visit s (name t) = .ok (step s t)) {requests : ℕ}
    (hrequests : log.length < requests) :
    drain readPage visit requests start = some (.ok (log.foldl step start)) :=
  drain_from (p := 0) hsize hread hvisit hrequests

end Drain

section Exact

theorem filter_flatMap {g : τ → List α} (distinct : (log.map key).Nodup)
    (hg : ∀ t, ∀ a ∈ g t, cursor a = key t) {t : τ} (ht : t ∈ log) :
    (log.flatMap g).filter (fun a => decide (cursor a = key t)) = g t := by
  have hown : (g t).filter (fun a => decide (cursor a = key t)) = g t := by
    rw [List.filter_eq_self]
    intro a ha
    exact decide_eq_true (hg t a ha)
  have hother {l : List τ} (hl : ∀ u ∈ l, key u ≠ key t) :
      (l.flatMap g).filter (fun a => decide (cursor a = key t)) = [] := by
    rw [List.filter_eq_nil_iff]
    intro a ha hkey
    obtain ⟨u, hu, hau⟩ := List.mem_flatMap.mp ha
    exact hl u hu ((hg u a hau).symm.trans (of_decide_eq_true hkey))
  obtain ⟨old, new, rfl⟩ := List.append_of_mem ht
  have hold := old_ne distinct
  have hnew : ∀ u ∈ new, key u ≠ key t := by
    rw [List.map_append, List.map_cons, List.nodup_append] at distinct
    intro u hu heq
    exact (List.nodup_cons.mp distinct.2.1).1 (heq ▸ List.mem_map_of_mem hu)
  rw [List.flatMap_append, List.flatMap_cons, List.filter_append, List.filter_append, hother hold,
    hown, hother hnew, List.nil_append, List.append_nil]

theorem flatMap_perm_iff {found exact : τ → List α}
    (distinct : (log.map key).Nodup) (hfound : ∀ t, ∀ a ∈ found t, cursor a = key t)
    (hexact : ∀ t, ∀ a ∈ exact t, cursor a = key t) :
    (log.flatMap found).Perm (log.flatMap exact) ↔ ∀ t ∈ log, (found t).Perm (exact t) := by
  constructor
  · intro h t ht
    have hfilter := h.filter fun a => decide (cursor a = key t)
    rwa [filter_flatMap distinct hfound ht, filter_flatMap distinct hexact ht] at hfilter
  · intro h
    exact List.Perm.flatMap_left log h

theorem append_marked {mark : α → Prop} [DecidablePred mark] {a b x y : List α}
    (h : a ++ x = b ++ y) (ha : ∀ c ∈ a, mark c) (hb : ∀ c ∈ b, mark c)
    (hx : ∀ c ∈ x, ¬ mark c) (hy : ∀ c ∈ y, ¬ mark c) : a = b ∧ x = y := by
  have hmarked := congrArg (List.filter (decide <| mark ·)) h
  have hall {l : List α} (hl : ∀ c ∈ l, mark c) : l.filter (decide <| mark ·) = l := by
    rw [List.filter_eq_self]
    intro c hc
    exact decide_eq_true (hl c hc)
  have hnone {l : List α} (hl : ∀ c ∈ l, ¬ mark c) : l.filter (decide <| mark ·) = [] := by
    rw [List.filter_eq_nil_iff]
    intro c hc
    simpa using hl c hc
  rw [List.filter_append, List.filter_append, hall ha, hall hb, hnone hx, hnone hy,
    List.append_nil, List.append_nil] at hmarked
  subst hmarked
  exact ⟨rfl, List.append_cancel_left h⟩

/-- What was found in a part of the log is all there is to find in the log only if every entry of
the part was read right and there is nothing in the others. -/
theorem found_eq_iff {found exact : τ → List α} {read unread : List τ}
    (distinct : ((read ++ unread).map key).Nodup)
    (hfound : ∀ t, ∀ a ∈ found t, cursor a = key t)
    (hexact : ∀ t, ∀ a ∈ exact t, cursor a = key t) :
    read.flatMap found = (read ++ unread).flatMap exact ↔
      (∀ t ∈ read, found t = exact t) ∧ ∀ t ∈ unread, exact t = [] := by
  induction read with
  | nil => simp [eq_comm, List.flatMap_eq_nil_iff]
  | cons t read ih =>
    rw [List.cons_append, List.map_cons, List.nodup_cons] at distinct
    have hother {g : τ → List α} (hg : ∀ t, ∀ a ∈ g t, cursor a = key t) {l : List τ}
        (hl : l ⊆ read ++ unread) : ∀ a ∈ l.flatMap g, ¬ cursor a = key t := by
      intro a ha heq
      obtain ⟨u, hu, hau⟩ := List.mem_flatMap.mp ha
      apply distinct.1
      rw [← heq, hg u a hau]
      exact List.mem_map_of_mem (hl hu)
    constructor
    · intro h
      rw [List.cons_append, List.flatMap_cons, List.flatMap_cons] at h
      obtain ⟨hhead, htail⟩ := append_marked h (hfound t) (hexact t)
        (hother hfound (List.subset_append_left _ _)) (hother hexact (List.Subset.refl _))
      obtain ⟨hread, hunread⟩ := (ih distinct.2).mp htail
      exact ⟨List.forall_mem_cons.mpr ⟨hhead, hread⟩, hunread⟩
    · rintro ⟨hread, hunread⟩
      obtain ⟨hhead, hread⟩ := List.forall_mem_cons.mp hread
      rw [List.cons_append, List.flatMap_cons, List.flatMap_cons, hhead,
        (ih distinct.2).mpr ⟨hread, hunread⟩]

end Exact

end PagedScan
