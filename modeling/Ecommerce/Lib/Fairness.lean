import Mathlib.Order.WellFounded
import Mathlib.Data.Finset.Card
import Mathlib.Data.Finset.Range
import Ecommerce.Lib.Transition

/-!
# Fairness — infinite runs of a transition system and what they must reach

A run is fair to a set of transitions when it takes one of them whenever they stay possible.  The
progress rule: a rank that no step raises and that these transitions lower brings a fair run to its
goal.  `ensures` is the rule for one transition, and `project` carries a run over to another system.
A finite run is an infinite one of the system that may also be idle.
-/

namespace Transition

namespace System

variable {σ ℓ : Type*}

/-- An infinite run whose steps all satisfy `ok`. -/
structure Run (M : System σ ℓ) (ok : σ → ℓ → Prop) where
  state : Nat → σ
  label : Nat → ℓ
  init : M.init (state 0)
  allowed : ∀ n, ok (state n) (label n)
  step : ∀ n, M.step (state n) (label n) (state (n + 1))

variable {M : System σ ℓ} {ok : σ → ℓ → Prop}

/-- A transition in `A` is possible, and allowed. -/
def Possible (M : System σ ℓ) (ok : σ → ℓ → Prop) (A : σ → ℓ → σ → Prop) (s : σ) : Prop :=
  ∃ l s', ok s l ∧ M.step s l s' ∧ A s l s'

namespace Run

variable (r : Run M ok)

/-- The transition number `n` is in `A`. -/
def Takes (A : σ → ℓ → σ → Prop) (n : Nat) : Prop := A (r.state n) (r.label n) (r.state (n + 1))

/-- Weak fairness: what stays possible is not put off for ever. -/
def Fair (A : σ → ℓ → σ → Prop) : Prop :=
  ∀ n, (∀ k, n ≤ k → M.Possible ok A (r.state k)) → ∃ k, n ≤ k ∧ r.Takes A k

variable {r}

/-- The states of a run whose steps all satisfy another condition too. -/
theorem reach_of {ok' : σ → ℓ → Prop} (h : ∀ n, ok' (r.state n) (r.label n)) (n : Nat) :
    M.Reach ok' (r.state n) := by
  induction n with
  | zero => exact .init r.init
  | succ n ih => exact .step ih (h n) (r.step n)

theorem reach (n : Nat) : M.Reach ok (r.state n) := reach_of r.allowed n

/-- A property that no step of the run ends holds from its first moment on. -/
theorem persists {P : σ → Prop} {n : Nat} (hP : P (r.state n))
    (hstep : ∀ k, n ≤ k → P (r.state k) → P (r.state (k + 1))) {k : Nat} (hk : n ≤ k) :
    P (r.state k) := by
  induction k, hk using Nat.le_induction with
  | base => exact hP
  | succ k hk ih => exact hstep k hk ih

/-- A rank that no step raises stays the same from some moment on. -/
theorem settles (rank : σ → Nat)
    (hle : ∀ k, rank (r.state (k + 1)) ≤ rank (r.state k)) :
    ∃ n, ∀ k, n ≤ k → rank (r.state k) = rank (r.state n) := by
  let f : Nat → Nat := fun k => rank (r.state k)
  have hanti : Antitone f := antitone_nat_of_succ_le hle
  exact ⟨Function.argmin f, fun k hk =>
    Nat.le_antisymm (hanti hk) (Function.argmin_le f k)⟩

/-- The steps that lower such a rank are no more than it is at the beginning. -/
theorem lowered_le (rank : σ → Nat) {lowers : Nat → Prop} [DecidablePred lowers]
    (hle : ∀ k, rank (r.state (k + 1)) ≤ rank (r.state k))
    (hlt : ∀ k, lowers k → rank (r.state (k + 1)) < rank (r.state k)) (n : Nat) :
    ((Finset.range n).filter lowers).card + rank (r.state n) ≤ rank (r.state 0) := by
  induction n with
  | zero => simp
  | succ n ih =>
    rw [Finset.range_add_one, Finset.filter_insert]
    split
    · rename_i hn
      have hcard := Finset.card_insert_le n ((Finset.range n).filter lowers)
      have := hlt n hn
      omega
    · have := hle n
      omega

/-- The progress rule.  `ranked s x` says that the state `s` has the rank `x`. -/
theorem eventually {μ : Type*} [Preorder μ] [WellFoundedLT μ] {A : σ → ℓ → σ → Prop}
    (goal : σ → Prop) (ranked : σ → μ → Prop) (hfair : r.Fair A) {n : Nat} {x : μ}
    (hx : ranked (r.state n) x)
    (hpossible : ∀ k y, n ≤ k → ranked (r.state k) y → ¬ goal (r.state k) →
      M.Possible ok A (r.state k))
    (hstep : ∀ k y, n ≤ k → ranked (r.state k) y → ¬ goal (r.state k) →
      ∃ z, ranked (r.state (k + 1)) z ∧ z ≤ y ∧ (r.Takes A k → z < y)) :
    ∃ k, n ≤ k ∧ goal (r.state k) := by
  induction x using WellFoundedLT.induction generalizing n with
  | ind x ih =>
    by_contra hnever
    have hnot : ∀ k, n ≤ k → ¬ goal (r.state k) := fun k hk hgoal => hnever ⟨k, hk, hgoal⟩
    -- until the goal the rank stays at `x` or below
    have hranks : ∀ k, n ≤ k → ∃ y, ranked (r.state k) y ∧ y ≤ x := by
      intro k hk
      induction k, hk using Nat.le_induction with
      | base => exact ⟨x, hx, le_refl x⟩
      | succ k hk ih =>
        obtain ⟨y, hy, hyx⟩ := ih
        obtain ⟨z, hz, hzy, -⟩ := hstep k y hk hy (hnot k hk)
        exact ⟨z, hz, hzy.trans hyx⟩
    obtain ⟨k, hk, htaken⟩ := hfair n fun k hk => by
      obtain ⟨y, hy, -⟩ := hranks k hk
      exact hpossible k y hk hy (hnot k hk)
    obtain ⟨y, hy, hyx⟩ := hranks k hk
    obtain ⟨z, hz, -, hlt⟩ := hstep k y hk hy (hnot k hk)
    have hlater : n ≤ k + 1 := by omega
    obtain ⟨j, hj, hgoal⟩ := ih z ((hlt htaken).trans_le hyx) hz
      (fun j y hj => hpossible j y (hlater.trans hj)) fun j y hj => hstep j y (hlater.trans hj)
    exact hnot j (hlater.trans hj) hgoal

/-- The rule for one transition: `P` lasts until the goal, keeps the transition possible, and the
transition reaches the goal. -/
theorem ensures {A : σ → ℓ → σ → Prop} {P : σ → Prop} (goal : σ → Prop) (hfair : r.Fair A) {n : Nat}
    (hP : P (r.state n))
    (hpossible : ∀ k, n ≤ k → P (r.state k) → ¬ goal (r.state k) → M.Possible ok A (r.state k))
    (hstep : ∀ k, n ≤ k → P (r.state k) → ¬ goal (r.state k) →
      P (r.state (k + 1)) ∧ ¬ r.Takes A k ∨ goal (r.state (k + 1))) :
    ∃ k, n ≤ k ∧ goal (r.state k) := by
  by_contra hnever
  have hnot : ∀ k, n ≤ k → ¬ goal (r.state k) := fun k hk hgoal => hnever ⟨k, hk, hgoal⟩
  have hlasts : ∀ k, n ≤ k → P (r.state k) := fun k hk => r.persists hP (fun j hj hPj =>
    ((hstep j hj hPj (hnot j hj)).resolve_right (hnot (j + 1) (Nat.le_succ_of_le hj))).1) hk
  obtain ⟨k, hk, htaken⟩ := hfair n fun k hk => hpossible k hk (hlasts k hk) (hnot k hk)
  obtain ⟨-, hmissed⟩ | hgoal := hstep k hk (hlasts k hk) (hnot k hk)
  · exact hmissed htaken
  · exact hnot (k + 1) (Nat.le_succ_of_le hk) hgoal

/-- The projection rule for infinite runs.  `related l m` ties the label of a step to the one it
has in the other system. -/
theorem project {τ μ : Type*} {N : System τ μ} {okN : τ → μ → Prop} (f : σ → τ)
    (related : ℓ → μ → Prop) (hinit : ∀ s, M.init s → N.init (f s))
    (hstep : ∀ s l s', M.Reach ok s → ok s l → M.step s l s' →
      ∃ m, okN (f s) m ∧ N.step (f s) m (f s') ∧ related l m) :
    ∃ r' : Run N okN, (∀ n, r'.state n = f (r.state n)) ∧
      ∀ n, related (r.label n) (r'.label n) := by
  choose label hok hnext hrelated using fun n =>
    hstep (r.state n) (r.label n) (r.state (n + 1)) (reach n) (r.allowed n) (r.step n)
  exact ⟨⟨fun n => f (r.state n), label, hinit _ r.init, hok, hnext⟩, fun _ => rfl, hrelated⟩

end Run

/-! ## Runs that pause -/

/-- The system that may also do nothing.  Its infinite runs include what is left of a finite one:
only fairness makes it go on. -/
def idling (M : System σ ℓ) : System σ (Option ℓ) where
  init := M.init
  step s l s' := match l with
    | some l => M.step s l s'
    | none => s' = s

theorem Reach.of_idling {ok : σ → Option ℓ → Prop} {ok' : σ → ℓ → Prop} {s : σ}
    (h : M.idling.Reach ok s) (hok : ∀ s l, ok s (some l) → ok' s l) : M.Reach ok' s := by
  induction h with
  | init h0 => exact .init h0
  | @step s s' l _ hl hs ih =>
    cases l with
    | none =>
      rw [show s' = s from hs]
      exact ih
    | some l => exact .step ih (hok s l hl) hs

/-- The state after the first steps with these labels, as `exec` executes them. -/
def trace (exec : σ → ℓ → Option σ) (s : σ) : List ℓ → Nat → σ
  | [], _ => s
  | _ :: _, 0 => s
  | l :: ls, n + 1 => trace exec ((exec s l).getD s) ls n

/-- Every step of the list can be executed. -/
def executes (exec : σ → ℓ → Option σ) (s : σ) : List ℓ → Bool
  | [] => true
  | l :: ls => (exec s l).isSome && executes exec ((exec s l).getD s) ls

section Trace

variable {exec : σ → ℓ → Option σ}

theorem trace_zero (s : σ) (ls : List ℓ) : trace exec s ls 0 = s := by
  cases ls <;> rfl

theorem trace_end {s : σ} {ls : List ℓ} {n : Nat} (hn : ls.length ≤ n) :
    trace exec s ls n = trace exec s ls ls.length := by
  induction ls generalizing s n with
  | nil => rfl
  | cons l ls ih =>
    cases n with
    | zero => exact absurd hn (Nat.not_succ_le_zero _)
    | succ n => exact ih (Nat.le_of_succ_le_succ hn)

theorem step_trace (hexec : ∀ s l s', exec s l = some s' → M.step s l s') {s : σ} {ls : List ℓ}
    (h : executes exec s ls = true) (n : Nat) :
    M.idling.step (trace exec s ls n) ls[n]? (trace exec s ls (n + 1)) := by
  induction ls generalizing s n with
  | nil => rfl
  | cons l ls ih =>
    rw [executes, Bool.and_eq_true] at h
    obtain ⟨s', hs'⟩ := Option.isSome_iff_exists.mp h.1
    cases n with
    | zero =>
      simp only [trace, trace_zero, hs']
      exact hexec s l s' hs'
    | succ n => exact ih h.2 n

/-- A list of steps as a run that is idle after the last of them. -/
def Run.ofList (hexec : ∀ s l s', exec s l = some s' → M.step s l s') {s : σ} (hinit : M.init s)
    (ls : List ℓ) (h : executes exec s ls = true) : Run M.idling anyStep where
  state := trace exec s ls
  label n := ls[n]?
  init := by
    show M.init (trace exec s ls 0)
    rwa [trace_zero]
  allowed _ := trivial
  step := step_trace hexec h

end Trace

end System

end Transition
