import Mathlib.Data.List.Basic
import Mathlib.Data.List.FinRange
import Mathlib.Data.List.Induction
import Mathlib.Logic.Relation

/-! Fallible straight-line code, loops and labelled runs.
A function that checks and returns early is a chain of guards in `Except`; the lemmas turn an
accepted chain into the facts its guards established. A run is a list of labels whose steps
follow one another. -/
namespace CheckedSteps

variable {ε ε' : Type*} {α β : Type}

def ensure (c : Prop) [Decidable c] (e : ε) : Except ε Unit :=
  if c then .ok () else .error e

@[simp] theorem ensure_ok {c : Prop} [Decidable c] {e : ε} {u : Unit} :
    ensure c e = .ok u ↔ c := by
  unfold ensure
  split <;> simp_all

@[simp] theorem bind_ok {x : Except ε α} {f : α → Except ε β} {b : β} :
    (x >>= f) = .ok b ↔ ∃ a, x = .ok a ∧ f a = .ok b := by
  cases x with
  | error e => simp [bind, Except.bind]
  | ok a => simp [bind, Except.bind]

@[simp] theorem map_ok {x : Except ε α} {f : α → β} {b : β} :
    f <$> x = .ok b ↔ ∃ a, x = .ok a ∧ f a = b := by
  cases x with
  | error e => simp [Functor.map, Except.map]
  | ok a => simp [Functor.map, Except.map]

@[simp] theorem pure_ok {a b : α} : (pure a : Except ε α) = .ok b ↔ a = b := by
  simp [pure, Except.pure]

def orFail (o : Option α) (e : ε) : Except ε α :=
  match o with
  | some a => .ok a
  | none => .error e

@[simp] theorem orFail_ok {o : Option α} {e : ε} {a : α} : orFail o e = .ok a ↔ o = some a := by
  cases o <;> simp [orFail]

def relabel (x : Except ε α) (e : ε') : Except ε' α :=
  match x with
  | .ok a => .ok a
  | .error _ => .error e

@[simp] theorem relabel_ok {x : Except ε α} {e : ε'} {a : α} :
    relabel x e = .ok a ↔ x = .ok a := by
  cases x <;> simp [relabel]

theorem loop_invariant {σ : Type*} {P : ℕ → σ → Prop} {n : ℕ} {f : σ → Fin n → σ} {s : σ}
    (base : P 0 s) (pres : ∀ (i : Fin n) s, P i s → P (i + 1) (f s i)) :
    P n ((List.finRange n).foldl f s) := by
  induction n with
  | zero => exact base
  | succ n ih =>
    rw [List.finRange_succ_last, List.foldl_append, List.foldl_map]
    exact pres (Fin.last n) _ (ih fun i s h => pres i.castSucc s h)

/-- The same loop with a body that can fail: it succeeds if each step does. -/
theorem loop_succeeds {σ : Type} {P : ℕ → σ → Prop} {n : ℕ} {f : σ → Fin n → Except ε σ} {s : σ}
    (base : P 0 s) (pres : ∀ (i : Fin n) s, P i s → ∃ t, f s i = .ok t ∧ P (i + 1) t) :
    ∃ t, (List.finRange n).foldlM f s = .ok t ∧ P n t := by
  induction n with
  | zero => exact ⟨s, rfl, base⟩
  | succ n ih =>
    obtain ⟨t, ht, hP⟩ := ih (f := fun s i => f s i.castSucc) fun i s h => pres i.castSucc s h
    obtain ⟨u, hu, hlast⟩ := pres (Fin.last n) t hP
    refine ⟨u, ?_, hlast⟩
    rw [List.finRange_succ_last, List.foldlM_append, List.foldlM_map, bind_ok]
    refine ⟨t, ht, ?_⟩
    rw [List.foldlM_cons, bind_ok]
    exact ⟨u, hu, rfl⟩

section Lists

variable {γ : Type} {f : α → Except ε β} {xs : List α} {ys : List β}

theorem mapM_succeeds : (∃ ys, xs.mapM f = .ok ys) ↔ ∀ x ∈ xs, ∃ y, f x = .ok y := by
  induction xs with
  | nil => simp
  | cons x xs ih =>
    rw [List.forall_mem_cons, ← ih]
    simp only [List.mapM_cons, bind_ok, pure_ok]
    constructor
    · rintro ⟨_, y, hy, ys, hys, -⟩
      exact ⟨⟨y, hy⟩, ys, hys⟩
    · rintro ⟨⟨y, hy⟩, ys, hys⟩
      exact ⟨_, y, hy, ys, hys, rfl⟩

theorem mapM_map {g : β → γ} {h : α → γ} (hf : ∀ x y, f x = .ok y → g y = h x)
    (hys : xs.mapM f = .ok ys) : ys.map g = xs.map h := by
  induction xs generalizing ys with
  | nil =>
    cases hys
    rfl
  | cons x xs ih =>
    simp only [List.mapM_cons, bind_ok, pure_ok] at hys
    obtain ⟨y, hy, rest, hrest, rfl⟩ := hys
    rw [List.map_cons, List.map_cons, hf x y hy, ih hrest]

end Lists

section OnlyFailure

def OnlyFails (e : ε) (x : Except ε α) : Prop := ∀ e', x = .error e' → e' = e

variable {e : ε} {a : α} {x : Except ε α}

theorem onlyFails_ok : OnlyFails e (.ok a) := by
  intro e' h
  cases h

theorem onlyFails_error : OnlyFails e (.error e : Except ε α) := by
  intro e' h
  exact (Except.error.inj h).symm

theorem onlyFails_ensure {c : Prop} [Decidable c] : OnlyFails e (ensure c e) := by
  unfold ensure
  split
  · exact onlyFails_ok
  · exact onlyFails_error

theorem onlyFails_orFail {o : Option α} : OnlyFails e (orFail o e) := by
  cases o with
  | none => exact onlyFails_error
  | some a => exact onlyFails_ok

theorem OnlyFails.bind {f : α → Except ε β} (hx : OnlyFails e x) (hf : ∀ a, OnlyFails e (f a)) :
    OnlyFails e (x >>= f) := by
  cases x with
  | error e₁ =>
    obtain rfl := hx e₁ rfl
    exact onlyFails_error
  | ok a => exact hf a

theorem OnlyFails.map {f : α → β} (hx : OnlyFails e x) : OnlyFails e (f <$> x) := by
  cases x with
  | error e₁ =>
    obtain rfl := hx e₁ rfl
    exact onlyFails_error
  | ok a => exact onlyFails_ok

theorem onlyFails_iff : OnlyFails e x ↔ (∃ a, x = .ok a) ∨ x = .error e := by
  cases x with
  | ok a => exact ⟨fun _ => .inl ⟨a, rfl⟩, fun _ => onlyFails_ok⟩
  | error e₁ =>
    constructor
    · intro h
      exact .inr (congrArg _ (h e₁ rfl))
    · rintro (⟨a, ha⟩ | h)
      · cases ha
      · rw [h]
        exact onlyFails_error

end OnlyFailure

section InPlace

variable {σ ι : Type} {f : σ → ι → Except ε σ} {is : List ι} {s t : σ}

/-- A loop that writes to its state in place: when a step fails, what the steps before it wrote
stays. -/
def inPlace (f : σ → ι → Except ε σ) : List ι → σ → σ × Except ε Unit
  | [], s => (s, .ok ())
  | i :: is, s =>
    match f s i with
    | .ok t => inPlace f is t
    | .error e => (s, .error e)

theorem inPlace_ok : inPlace f is s = (t, .ok ()) ↔ is.foldlM f s = .ok t := by
  induction is generalizing s with
  | nil =>
    rw [inPlace, List.foldlM_nil, pure_ok, Prod.mk.injEq]
    exact and_iff_left rfl
  | cons i is ih =>
    rw [inPlace, List.foldlM_cons, bind_ok]
    cases h : f s i with
    | ok u => simp [ih]
    | error e => simp

theorem inPlace_append {js : List ι} :
    inPlace f (is ++ js) s =
      match inPlace f is s with
      | (t, .ok ()) => inPlace f js t
      | (t, .error e) => (t, .error e) := by
  induction is generalizing s with
  | nil => rfl
  | cons i is ih =>
    rw [List.cons_append, inPlace, inPlace]
    cases h : f s i with
    | ok u => exact ih
    | error e => rfl

theorem inPlace_map {κ : Type} {g : κ → ι} {ks : List κ} :
    inPlace f (ks.map g) s = inPlace (fun s k => f s (g k)) ks s := by
  induction ks generalizing s with
  | nil => rfl
  | cons k ks ih =>
    rw [List.map_cons, inPlace, inPlace]
    cases h : f s (g k) with
    | ok u => exact ih
    | error e => rfl

/-- The loop `for i in 0..n` in place goes through, or it stops at the first step that fails. -/
theorem loop_in_place {P : ℕ → σ → Prop} {Q : ℕ → ε → Prop} {n : ℕ} {f : σ → Fin n → Except ε σ}
    (base : P 0 s)
    (pres : ∀ (i : Fin n) s, P i s →
      (∃ t, f s i = .ok t ∧ P (i + 1) t) ∨ ∃ e, f s i = .error e ∧ Q i e) :
    (∃ t, inPlace f (List.finRange n) s = (t, .ok ()) ∧ P n t) ∨
      ∃ (i : Fin n) (t : σ) (e : ε),
        inPlace f (List.finRange n) s = (t, .error e) ∧ P i t ∧ Q i e := by
  induction n with
  | zero => exact .inl ⟨s, rfl, base⟩
  | succ n ih =>
    rw [List.finRange_succ_last, inPlace_append, inPlace_map]
    rcases ih (f := fun s i => f s i.castSucc) fun i s h => pres i.castSucc s h with
      ⟨t, ht, hP⟩ | ⟨i, t, e, ht, hP, hQ⟩
    · rw [ht]
      dsimp only
      rw [inPlace]
      rcases pres (Fin.last n) t hP with ⟨u, hu, hlast⟩ | ⟨e, he, hQ⟩
      · rw [hu]
        exact .inl ⟨u, rfl, hlast⟩
      · rw [he]
        exact .inr ⟨Fin.last n, t, e, rfl, hP, hQ⟩
    · rw [ht]
      exact .inr ⟨i.castSucc, t, e, rfl, hP, hQ⟩

end InPlace

section Runs

variable {σ ι : Type*}

inductive Run (step : σ → ι → σ → Prop) : σ → List ι → σ → Prop where
  | nil (s) : Run step s [] s
  | snoc {s t u ls l} : Run step s ls t → step t l u → Run step s (ls ++ [l]) u

variable {step : σ → ι → σ → Prop} {s t u : σ} {l : ι} {ls ks : List ι}

theorem Run.invariant {P : σ → Prop} (pres : ∀ s l t, P s → step s l t → P t)
    (r : Run step s ls t) (h : P s) : P t := by
  induction r with
  | nil => exact h
  | snoc _ st ih => exact pres _ _ _ ih st

/-- An invariant that also speaks about the labels seen so far. -/
theorem Run.history {P : σ → List ι → σ → Prop} (base : P s [] s)
    (pres : ∀ ls t l u, Run step s ls t → P s ls t → step t l u → P s (ls ++ [l]) u)
    (r : Run step s ls t) : P s ls t := by
  induction r with
  | nil => exact base
  | snoc r st ih => exact pres _ _ _ _ r ih st

theorem Run.mono {step' : σ → ι → σ → Prop} (h : ∀ s l t, step s l t → step' s l t)
    (r : Run step s ls t) : Run step' s ls t := by
  induction r with
  | nil => exact .nil _
  | snoc _ st ih => exact .snoc ih (h _ _ _ st)

theorem Run.step_of_mem (r : Run step s ls t) (h : l ∈ ls) :
    ∃ u v, step u l v := by
  induction r with
  | nil => cases h
  | snoc _ st ih =>
    rcases List.mem_append.mp h with h | h
    · exact ih h
    · cases List.mem_singleton.mp h
      exact ⟨_, _, st⟩

/-- A run whose labels all satisfy `P` is a run of the steps that do. -/
theorem Run.restrict {P : ι → Prop} (r : Run step s ls t)
    (h : ∀ l ∈ ls, P l) : Run (fun s l t => step s l t ∧ P l) s ls t := by
  induction r with
  | nil => exact .nil _
  | @snoc t u ls l _ st ih =>
    exact .snoc (ih fun k hk => h k (List.mem_append_left _ hk)) ⟨st, h l (by simp)⟩

theorem Run.append (r : Run step s ls t) (q : Run step t ks u) :
    Run step s (ls ++ ks) u := by
  induction q with
  | nil => simpa using r
  | snoc _ st ih =>
    rw [← List.append_assoc]
    exact .snoc ih st

theorem Run.eq_of_nil (r : Run step s [] t) : t = s := by
  generalize hls : ([] : List ι) = ls at r
  cases r with
  | nil => rfl
  | snoc => simp at hls

theorem Run.last (r : Run step s (ls ++ [l]) u) :
    ∃ t, Run step s ls t ∧ step t l u := by
  generalize hls : ls ++ [l] = all at r
  cases r with
  | nil => simp at hls
  | @snoc t _ before l' run st =>
    obtain ⟨rfl, hl⟩ := List.append_inj' hls rfl
    cases hl
    exact ⟨t, run, st⟩

theorem Run.split (r : Run step s (ls ++ ks) u) :
    ∃ t, Run step s ls t ∧ Run step t ks u := by
  induction ks using List.reverseRecOn generalizing u with
  | nil =>
    rw [List.append_nil] at r
    exact ⟨u, r, .nil u⟩
  | append_singleton ks k ih =>
    rw [← List.append_assoc] at r
    obtain ⟨v, before, st⟩ := r.last
    obtain ⟨t, hs, ht⟩ := ih before
    exact ⟨t, hs, ht.snoc st⟩

theorem Run.head (r : Run step s (l :: ls) u) :
    ∃ t, step s l t ∧ Run step t ls u := by
  have hsplit : ∃ t, Run step s ([] ++ [l]) t ∧ Run step t ls u := Run.split r
  obtain ⟨t, first, rest⟩ := hsplit
  obtain ⟨v, nothing, st⟩ := first.last
  rw [nothing.eq_of_nil] at st
  exact ⟨t, st, rest⟩

theorem Run.single (h : step s l t) : Run step s [l] t :=
  .snoc (.nil s) h

def Stutters {τ κ : Type*} (astep : τ → κ → τ → Prop) (a : τ) : Option κ → τ → Prop
  | none, b => b = a
  | some k, b => astep a k b

/-- Forward simulation with stuttering: steps whose label maps to nothing leave the abstract
state as it is. -/
theorem Run.simulate {τ κ : Type*} {astep : τ → κ → τ → Prop} {R : σ → τ → Prop}
    {f : ι → Option κ}
    (sim : ∀ s l t a, R s a → step s l t → ∃ b, R t b ∧ Stutters astep a (f l) b)
    (r : Run step s ls t) {a : τ} (h : R s a) :
    ∃ b, R t b ∧ Run astep a (ls.filterMap f) b := by
  induction r with
  | nil => exact ⟨a, h, .nil a⟩
  | @snoc t u ls l _ st ih =>
    obtain ⟨b, hb, rb⟩ := ih
    obtain ⟨b', hb', hstep⟩ := sim _ _ _ _ hb st
    refine ⟨b', hb', ?_⟩
    rw [List.filterMap_append]
    cases hf : f l with
    | none =>
      rw [hf] at hstep
      cases hstep
      rw [List.filterMap_cons_none hf, List.filterMap_nil, List.append_nil]
      exact rb
    | some k =>
      rw [hf] at hstep
      rw [List.filterMap_cons_some hf, List.filterMap_nil]
      exact .snoc rb hstep

theorem Run.flatMap {τ κ : Type*} {astep : τ → κ → τ → Prop} {view : σ → τ} {f : ι → List κ}
    (sim : ∀ s i t, step s i t → Run astep (view s) (f i) (view t))
    (r : Run step s ls t) : Run astep (view s) (ls.flatMap f) (view t) := by
  induction r with
  | nil => exact .nil _
  | snoc _ st ih =>
    rw [List.flatMap_append, List.flatMap_singleton]
    exact ih.append (sim _ _ _ st)

end Runs

end CheckedSteps
