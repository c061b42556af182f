import Mathlib.Data.List.TakeWhile

/-! A log that grows at its end and is read in pages. Every entry has its own key. A page shows
the newest entries after a checkpoint, newest first, and the reader moves the checkpoint to the
newest entry of the page. -/
namespace PolledLog

variable {τ κ μ : Type*} [DecidableEq κ] {key : τ → κ} {events : τ → List μ} {log : List τ}
  {start checkpoint : Option κ}

def since (key : τ → κ) (log : List τ) : Option κ → List τ
  | none => log
  | some k => (log.dropWhile fun t => key t ≠ k).drop 1

def page (key : τ → κ) (log : List τ) (checkpoint : Option κ) (n : ℕ) : List τ :=
  (since key log checkpoint).reverse.take n

def Marks (key : τ → κ) (log : List τ) (checkpoint : Option κ) : Prop :=
  ∀ k, checkpoint = some k → ∃ t ∈ log, key t = k

theorem since_suffix (key : τ → κ) (log : List τ) (checkpoint : Option κ) :
    since key log checkpoint <:+ log := by
  cases checkpoint with
  | none => exact List.suffix_rfl
  | some k => exact (List.drop_suffix 1 _).trans (List.dropWhile_suffix _)

theorem since_append (h : Marks key log checkpoint) (new : List τ) :
    since key (log ++ new) checkpoint = since key log checkpoint ++ new := by
  cases checkpoint with
  | none => rfl
  | some k =>
    obtain ⟨t, ht, hk⟩ := h k rfl
    have hfound : log.dropWhile (fun t => key t ≠ k) ≠ [] := by
      intro hnil
      have hall := List.dropWhile_eq_nil_iff.mp hnil t ht
      simp [hk] at hall
    obtain ⟨u, rest, hd⟩ := List.exists_cons_of_ne_nil hfound
    simp only [since, List.dropWhile_append, hd, List.isEmpty_cons, Bool.false_eq_true,
      if_false, List.cons_append, List.drop_succ_cons, List.drop_zero]

theorem since_split {old new : List τ} {t : τ} (h : ∀ u ∈ old, key u ≠ key t) :
    since key (old ++ t :: new) (some (key t)) = new := by
  have hnil : old.dropWhile (fun u => key u ≠ key t) = [] := by
    rw [List.dropWhile_eq_nil_iff]
    intro u hu
    simpa using h u hu
  rw [since, List.dropWhile_append, hnil]
  simp

omit [DecidableEq κ] in
theorem old_ne {old new : List τ} {t : τ} (distinct : ((old ++ t :: new).map key).Nodup) :
    ∀ u ∈ old, key u ≠ key t := by
  rw [List.map_append, List.nodup_append] at distinct
  intro u hu
  exact distinct.2.2 _ (List.mem_map_of_mem hu) _ List.mem_cons_self

theorem since_filter {p : τ → Bool} (distinct : (log.map key).Nodup)
    (h : Marks key (log.filter p) checkpoint) :
    since key (log.filter p) checkpoint = (since key log checkpoint).filter p := by
  cases checkpoint with
  | none => rfl
  | some k =>
    obtain ⟨t, ht, rfl⟩ := h k rfl
    obtain ⟨hmem, hp⟩ := List.mem_filter.mp ht
    obtain ⟨old, new, rfl⟩ := List.append_of_mem hmem
    have hold := old_ne distinct
    rw [since_split hold, List.filter_append, List.filter_cons_of_pos hp]
    apply since_split
    intro u hu
    exact hold u (List.mem_filter.mp hu).1

/-- The entries of a log, newest first, that are newer than the one with the given key; all of
them, if no entry has it. -/
def newer (key : τ → κ) (log : List τ) : Option κ → List τ
  | none => log
  | some k => log.takeWhile fun t => key t ≠ k

theorem newer_split {new old : List τ} {t : τ} (h : ∀ u ∈ new, key u ≠ key t) :
    newer key (new ++ t :: old) (some (key t)) = new := by
  have hall : ∀ u ∈ new, decide (key u ≠ key t) = true := fun u hu => decide_eq_true (h u hu)
  rw [newer, List.takeWhile_append_of_pos hall, List.takeWhile_cons_of_neg (by simp),
    List.append_nil]

theorem newer_append {new : List τ} (h : ∀ t ∈ new, checkpoint ≠ some (key t)) :
    newer key (new ++ log) checkpoint = new ++ newer key log checkpoint := by
  cases checkpoint with
  | none => rfl
  | some k =>
    apply List.takeWhile_append_of_pos
    intro t ht
    exact decide_eq_true fun heq => h t ht (heq ▸ rfl)

/-- The entries that are newer than an entry come before it. -/
theorem mem_newer_iff {t u : τ} (distinct : (log.map key).Nodup) (hu : u ∈ log) :
    t ∈ newer key log (some (key u)) ↔ [t, u].Sublist log := by
  obtain ⟨new, old, rfl⟩ := List.append_of_mem hu
  have hnew := old_ne distinct
  rw [newer_split hnew]
  constructor
  · intro ht
    exact (List.singleton_sublist.mpr ht).append (List.singleton_sublist.mpr List.mem_cons_self)
  · intro h
    have hold : u ∉ old := by
      rw [List.map_append, List.map_cons, List.nodup_append, List.nodup_cons] at distinct
      exact fun hmem => distinct.2.1.1 (List.mem_map_of_mem hmem)
    clear hu hnew distinct
    induction new with
    | nil =>
      cases h with
      | cons _ h => exact absurd (h.subset (List.mem_cons_of_mem _ List.mem_cons_self)) hold
      | cons_cons _ h => exact absurd (h.subset List.mem_cons_self) hold
    | cons v new ih =>
      cases h with
      | cons _ h => exact List.mem_cons_of_mem _ (ih h)
      | cons_cons _ h => exact List.mem_cons_self

/-- An entry is among the first that pass if it passes and all that come before it do. -/
theorem mem_takeWhile_iff {p : τ → Bool} {t : τ} (distinct : (log.map key).Nodup) (ht : t ∈ log) :
    t ∈ log.takeWhile p ↔ p t = true ∧ ∀ u, [u, t].Sublist log → p u = true := by
  simp only [← mem_newer_iff distinct ht]
  obtain ⟨new, old, rfl⟩ := List.append_of_mem ht
  have hnew := old_ne distinct
  rw [newer_split hnew]
  constructor
  · intro hmem
    refine ⟨List.mem_takeWhile_imp hmem, fun u hu => ?_⟩
    by_contra hstop
    rw [List.takeWhile_append, if_neg] at hmem
    · exact hnew t ((List.takeWhile_sublist _).subset hmem) rfl
    · intro hlen
      have hall := (List.takeWhile_prefix p).eq_of_length hlen
      exact hstop (List.takeWhile_eq_self_iff.mp hall u hu)
  · rintro ⟨hp, hall⟩
    rw [List.takeWhile_append_of_pos hall, List.takeWhile_cons_of_pos hp]
    exact List.mem_append_right _ List.mem_cons_self

theorem prefix_newer : newer key log checkpoint <+: log := by
  cases checkpoint with
  | none => exact List.prefix_rfl
  | some k => exact List.takeWhile_prefix _

/-- What comes before a newer entry is newer, too. -/
theorem sublist_newer {t u : τ} (distinct : (log.map key).Nodup)
    (hu : u ∈ newer key log checkpoint) (h : [t, u].Sublist log) :
    [t, u].Sublist (newer key log checkpoint) := by
  obtain ⟨rest, hrest⟩ : newer key log checkpoint <+: log := prefix_newer
  obtain ⟨new, old, hsplit⟩ := List.append_of_mem hu
  rw [← hrest, hsplit, List.append_assoc, List.cons_append] at distinct h
  have ht := (mem_newer_iff distinct (by simp)).mpr h
  rw [newer_split (old_ne distinct)] at ht
  rw [hsplit]
  exact (List.singleton_sublist.mpr ht).append (List.singleton_sublist.mpr List.mem_cons_self)

theorem page_of_le {n : ℕ} (h : (since key log checkpoint).length ≤ n) :
    page key log checkpoint n = (since key log checkpoint).reverse :=
  List.take_of_length_le (by rwa [List.length_reverse])

structure Reader (κ μ : Type*) where
  checkpoint : Option κ
  delivered : List μ

/-- The reader was given the events of all entries between the start and its checkpoint, in the
order of the log. -/
structure Caught (key : τ → κ) (events : τ → List μ) (start : Option κ) (log : List τ)
    (r : Reader κ μ) : Prop where
  origin : Marks key log start
  marks : Marks key log r.checkpoint
  seen : ∃ seen, since key log start = seen ++ since key log r.checkpoint ∧
    r.delivered = seen.flatMap events

variable {r : Reader κ μ}

omit [DecidableEq κ] in
theorem Marks.append (h : Marks key log checkpoint) (new : List τ) :
    Marks key (log ++ new) checkpoint := by
  intro k hk
  obtain ⟨t, ht, hkey⟩ := h k hk
  exact ⟨t, List.mem_append_left _ ht, hkey⟩

theorem Caught.initial (h : Marks key log start) : Caught key events start log ⟨start, []⟩ :=
  ⟨h, h, [], rfl, rfl⟩

theorem Caught.grow (h : Caught key events start log r) (new : List τ) :
    Caught key events start (log ++ new) r := by
  obtain ⟨seen, hsplit, hdelivered⟩ := h.seen
  refine ⟨h.origin.append new, h.marks.append new, seen, ?_, hdelivered⟩
  rw [since_append h.origin, since_append h.marks, hsplit, List.append_assoc]

theorem Caught.complete (h : Caught key events start log r)
    (hnone : since key log r.checkpoint = []) :
    r.delivered = (since key log start).flatMap events := by
  obtain ⟨seen, hsplit, hdelivered⟩ := h.seen
  rw [hdelivered, hsplit, hnone, List.append_nil]

/-- A page that shows everything after the checkpoint brings the reader to the end of the log. -/
theorem Caught.read {n : ℕ} {newest : τ} {rest : List τ} (h : Caught key events start log r)
    (distinct : (log.map key).Nodup) (hn : (since key log r.checkpoint).length ≤ n)
    (hp : page key log r.checkpoint n = newest :: rest) :
    let r' : Reader κ μ :=
      ⟨some (key newest), r.delivered ++ (newest :: rest).reverse.flatMap events⟩
    Caught key events start log r' ∧ since key log r'.checkpoint = [] := by
  obtain ⟨seen, hsplit, hdelivered⟩ := h.seen
  have hsince : since key log r.checkpoint = rest.reverse ++ [newest] := by
    rw [page_of_le hn, List.reverse_eq_iff, List.reverse_cons] at hp
    exact hp
  obtain ⟨old, hlog⟩ := since_suffix key log r.checkpoint
  rw [hsince, ← List.append_assoc] at hlog
  subst hlog
  have hnone : since key (old ++ rest.reverse ++ [newest]) (some (key newest)) = [] :=
    since_split (old_ne distinct)
  refine ⟨⟨h.origin, ?_, seen ++ (rest.reverse ++ [newest]), ?_, ?_⟩, hnone⟩
  · intro k hk
    cases hk
    exact ⟨newest, List.mem_append_right _ List.mem_cons_self, rfl⟩
  · rw [hnone, List.append_nil, hsplit, hsince]
  · rw [hdelivered, List.reverse_cons, ← List.flatMap_append]

end PolledLog
