import Mathlib.Logic.Relation

/-!
# Transition — labelled transition systems and the rules for their runs

A system is a set of initial states and a labelled step relation.  Runs may be restricted by a
condition `ok` on the state before a step and on its label, so one system serves both the claims
about every run and the claims about runs whose steps all meet a condition.
-/

namespace Transition

/-- A labelled transition system. -/
structure System (σ ℓ : Type*) where
  init : σ → Prop
  step : σ → ℓ → σ → Prop

namespace System

variable {σ ℓ τ μ : Type*} {M : System σ ℓ} {ok ok' : σ → ℓ → Prop}

/-- The states reached from an initial one by steps that all satisfy `ok`. -/
inductive Reach (M : System σ ℓ) (ok : σ → ℓ → Prop) : σ → Prop
  | init {s : σ} : M.init s → Reach M ok s
  | step {s s' : σ} {l : ℓ} : Reach M ok s → ok s l → M.step s l s' → Reach M ok s'

/-- The condition that every step meets. -/
def anyStep : σ → ℓ → Prop := fun _ _ => True

/-- One step that satisfies `ok`, its label forgotten. -/
def Next (M : System σ ℓ) (ok : σ → ℓ → Prop) (s s' : σ) : Prop :=
  ∃ l, ok s l ∧ M.step s l s'

/-- Any number of steps that all satisfy `ok`. -/
def Steps (M : System σ ℓ) (ok : σ → ℓ → Prop) : σ → σ → Prop :=
  Relation.ReflTransGen (M.Next ok)

/-- The invariant rule.  The step case may use that the state before the step is reachable. -/
theorem Reach.invariant {I : σ → Prop} {s : σ} (h : M.Reach ok s)
    (hinit : ∀ s, M.init s → I s)
    (hstep : ∀ s l s', M.Reach ok s → I s → ok s l → M.step s l s' → I s') : I s := by
  induction h with
  | init h0 => exact hinit _ h0
  | step hr hok hs ih => exact hstep _ _ _ hr ih hok hs

theorem Reach.mono {s : σ} (h : M.Reach ok s) (himp : ∀ s l, ok s l → ok' s l) :
    M.Reach ok' s := by
  induction h with
  | init h0 => exact .init h0
  | step _ hok hs ih => exact .step ih (himp _ _ hok) hs

theorem Reach.any {s : σ} (h : M.Reach ok s) : M.Reach anyStep s :=
  h.mono fun _ _ _ => trivial

theorem Reach.steps {s s' : σ} (h : M.Reach ok s) (hs : M.Steps ok s s') : M.Reach ok s' := by
  induction hs with
  | refl => exact h
  | tail _ hnext ih =>
    obtain ⟨l, hok, hstep⟩ := hnext
    exact .step ih hok hstep

/-- The rule for runs that are computed: each name on a list is executed as a step, and what is found
of the last state by evaluation holds of a reachable one. -/
theorem Reach.of_run {α : Type*} {exec : σ → α → Option σ} {run : σ → List α → Option σ}
    {label : α → ℓ} (hnil : ∀ s, run s [] = some s)
    (hcons : ∀ s a as, run s (a :: as) = (exec s a).bind fun s' => run s' as)
    (hexec : ∀ s a s', exec s a = some s' → M.step s (label a) s') {s : σ} (hr : M.Reach ok s)
    (as : List α) (hok : ∀ a ∈ as, ∀ s, ok s (label a)) {p : σ → Bool}
    (h : (run s as).any p = true) : ∃ s', M.Reach ok s' ∧ p s' = true := by
  induction as generalizing s with
  | nil =>
    rw [hnil] at h
    exact ⟨s, hr, h⟩
  | cons a as ih =>
    rw [hcons] at h
    cases hs : exec s a with
    | none =>
      rw [hs] at h
      cases h
    | some s' =>
      rw [hs] at h
      exact ih (hr.step (hok a List.mem_cons_self s) (hexec s a s' hs))
        (fun b hb => hok b (List.mem_cons_of_mem _ hb)) h

/-- Likewise for the states of one run. -/
theorem Steps.of_run {α : Type*} {exec : σ → α → Option σ} {run : σ → List α → Option σ}
    {label : α → ℓ} (hnil : ∀ s, run s [] = some s)
    (hcons : ∀ s a as, run s (a :: as) = (exec s a).bind fun s' => run s' as)
    (hexec : ∀ s a s', exec s a = some s' → M.step s (label a) s') {s s' : σ} (as : List α)
    (hok : ∀ a ∈ as, ∀ s, ok s (label a)) (h : run s as = some s') : M.Steps ok s s' := by
  induction as generalizing s with
  | nil =>
    rw [hnil] at h
    rw [Option.some.inj h]
    exact .refl
  | cons a as ih =>
    rw [hcons] at h
    obtain ⟨t, hs, hrest⟩ := Option.bind_eq_some_iff.mp h
    exact .head ⟨label a, hok a List.mem_cons_self s, hexec s a t hs⟩
      (ih (fun b hb => hok b (List.mem_cons_of_mem _ hb)) hrest)

theorem Steps.mono {s s' : σ} (h : M.Steps ok s s') (himp : ∀ s l, ok s l → ok' s l) :
    M.Steps ok' s s' := by
  refine Relation.ReflTransGen.mono ?_ _ _ h
  rintro a b ⟨l, hok, hs⟩
  exact ⟨l, himp _ _ hok, hs⟩

/-- The run rule for a relation between two states of one run: a reflexive and transitive
relation that every step from a reachable state establishes holds along the whole run. -/
theorem Steps.preserves {R : σ → σ → Prop} {s s' : σ} (h : M.Steps ok s s')
    (hr : M.Reach ok s) (hrefl : ∀ a, R a a) (htrans : ∀ a b c, R a b → R b c → R a c)
    (hstep : ∀ a l b, M.Reach ok a → ok a l → M.step a l b → R a b) : R s s' := by
  induction h with
  | refl => exact hrefl s
  | tail hab hnext ih =>
    obtain ⟨l, hok, hs⟩ := hnext
    exact htrans _ _ _ ih (hstep _ _ _ (hr.steps hab) hok hs)

/-- The projection rule: a map of states that turns every step into a step of the other system,
or into no step at all, carries reachable states to reachable states.  Only the steps into states
with `P` count, when no step leads from a state without `P` to one with it. -/
theorem Reach.project_while {N : System τ μ} {okN : τ → μ → Prop} (f : σ → τ) {P : σ → Prop} {s : σ}
    (h : M.Reach ok s) (hP : P s) (hback : ∀ s l s', M.step s l s' → P s' → P s)
    (hinit : ∀ s, M.init s → N.init (f s))
    (hstep : ∀ s l s', M.Reach ok s → P s' → ok s l → M.step s l s' →
      f s' = f s ∨ ∃ m, okN (f s) m ∧ N.step (f s) m (f s')) : N.Reach okN (f s) := by
  induction h with
  | init h0 => exact .init (hinit _ h0)
  | @step s s' l hr hok hs ih =>
    have hreach := ih (hback _ _ _ hs hP)
    rcases hstep _ _ _ hr hP hok hs with heq | ⟨m, hm, hN⟩
    · rw [heq]
      exact hreach
    · exact .step hreach hm hN

/-- The projection rule for every run. -/
theorem Reach.project {N : System τ μ} {okN : τ → μ → Prop} (f : σ → τ) {s : σ}
    (h : M.Reach ok s) (hinit : ∀ s, M.init s → N.init (f s))
    (hstep : ∀ s l s', M.Reach ok s → ok s l → M.step s l s' →
      f s' = f s ∨ ∃ m, okN (f s) m ∧ N.step (f s) m (f s')) : N.Reach okN (f s) :=
  h.project_while (P := fun _ => True) f trivial (fun _ _ _ _ => id) hinit fun s l s' hr _ =>
    hstep s l s' hr

end System

end Transition
