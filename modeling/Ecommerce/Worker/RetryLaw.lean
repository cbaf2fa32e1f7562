import Ecommerce.Worker.ChainProgress

/-!
# RetryLaw — what becomes of a message whose processing is made to fail

`docs/task-7-rabbitmq.md` tells what `stopOnAttempt` does to a message.  The end of the chain fixes
the number of retries, so every fair run without other failures ends as it says, as long as the
attempts are counted exactly.  From 2^53 on `attempt + 1` is not the next integer any more.
-/

namespace Ecommerce.Worker

open Amqp Orders Transition

/-! ## Attempts in doubles -/

section Counting

variable {a : Int} {i : Nat}

/-- Up to 2^53 the attempts are counted one by one. -/
theorem counted_exact (hlow : -2 ^ 53 ≤ a) (hhigh : a + i ≤ max a (2 ^ 53)) :
    counted (.ofInt a) i = .ofInt (a + i) := by
  induction i with
  | zero => simp [counted]
  | succ i ih =>
    push_cast at hhigh
    have hsafe : |a + i + 1| ≤ 2 ^ 53 := abs_le.mpr ⟨by omega, by omega⟩
    rw [counted, ih (by omega), Number.plus_safe hsafe, Nat.cast_succ, add_assoc]

/-- What the attempts can be: beyond 2^53 they are even. -/
inductive Coarse : Number → Prop
  | small (z : Int) (hlow : -2 ^ 53 ≤ z) (hhigh : z ≤ 2 ^ 53) : Coarse (.ofInt z)
  | even (k : Int) (h : 2 ^ 53 ≤ 2 * k) : Coarse (.ofInt (2 * k))
  | infinity : Coarse .infinity

theorem coarse_round {z : Int} (hz : 2 ^ 53 ≤ z) : Coarse (.round z) := by
  have habs : 2 ^ 53 ≤ |z| := hz.trans (le_abs_self z)
  obtain ⟨k, hk⟩ := Binary64.nearest_even habs
  have hle : ((2 ^ 53 : Int) : ℚ) ≤ Binary64.nearest z :=
    Binary64.le_nearest (by decide) (by exact_mod_cast hz)
  rw [hk, Int.cast_le] at hle
  unfold Number.round
  rw [hk]
  split_ifs with hhigh hlow
  · exact .infinity
  · have hpos : (0 : ℚ) ≤ (2 * k : Int) := Int.cast_nonneg (by omega)
    exact absurd (hpos.trans hlow) (not_le.mpr (neg_neg_of_pos (pow_pos two_pos 1024)))
  · exact .even k hle

theorem Coarse.next {n : Number} (h : Coarse n) : Coarse (n.plus (.ofInt 1)) := by
  have hnext {z : Int} (hlow : -2 ^ 53 ≤ z) : Coarse ((Number.ofInt z).plus (.ofInt 1)) := by
    by_cases hz : z < 2 ^ 53
    · rw [Number.plus_safe (abs_le.mpr ⟨by omega, by omega⟩)]
      exact .small _ (by omega) (by omega)
    · have hround := coarse_round (z := z + 1) (by omega)
      rwa [Int.cast_add] at hround
  cases h with
  | small z hlow hhigh => exact hnext hlow
  | even k h => exact hnext (by omega)
  | infinity => exact .infinity

theorem coarse_counted (hlow : -2 ^ 53 ≤ a) (hdouble : Number.round a = .ofInt a) :
    Coarse (counted (.ofInt a) i) := by
  induction i with
  | zero =>
    by_cases ha : a ≤ 2 ^ 53
    · exact .small a hlow ha
    · have hround := coarse_round (z := a) (by omega)
      rwa [hdouble] at hround
  | succ i ih => exact ih.next

/-- The first odd attempt beyond 2^53 is left out. -/
theorem counted_ne (hlow : -2 ^ 53 ≤ a) (hdouble : Number.round a = .ofInt a) :
    counted (.ofInt a) i ≠ .ofInt (max a (2 ^ 53) + 1) := by
  -- `a` itself is even, if it is larger
  have heven : Even (max a (2 ^ 53)) := by
    rcases le_total a (2 ^ 53) with hle | hge
    · rw [max_eq_right hle]
      decide
    · have ha := hdouble ▸ coarse_round (z := a) hge
      rw [max_eq_left hge]
      generalize hn : Number.ofInt a = n at ha
      cases ha with
      | small z hlow hhigh =>
        rw [Number.ofInt_inj] at hn
        rw [show a = 2 ^ 53 by omega]
        decide
      | even k h =>
        rw [Number.ofInt_inj] at hn
        exact ⟨k, by omega⟩
      | infinity => cases hn
  obtain ⟨k, hk⟩ := heven
  intro heq
  have hcoarse := coarse_counted (i := i) hlow hdouble
  rw [heq] at hcoarse
  generalize hn : Number.ofInt (max a (2 ^ 53) + 1) = n at hcoarse
  cases hcoarse with
  | small z hlow hhigh =>
    rw [Number.ofInt_inj] at hn
    omega
  | even k' h =>
    rw [Number.ofInt_inj] at hn
    omega
  | infinity => cases hn

end Counting

variable {π : Type} [DecidableEq π]

/-- The copy with the attempt `a + i`. -/
def copyAt (p : Nat) (m : ProcessOrderMessage) (a : Int) (i : Nat) : Copy :=
  { message := attemptNo m (.ofInt (a + i)), pub := p }

/-- The message is through: it was handled `n + 1` times, with the attempts `a`, ..., `a + n`. -/
structure Completed (s : State π) (p : Nat) (m : ProcessOrderMessage) (a : Int) (n : Nat)
    (succeeded : Bool) : Prop where
  handled : ∃ tags : List Nat, tags.Nodup ∧
    (∀ t, t ∈ tags ↔ ∃ h, s.handlers t = some h ∧ h.copy.pub = p) ∧
    tags.map (fun t => (s.handlers t).map (·.copy)) =
      (List.range (n + 1)).map fun j => some (copyAt p m a j)
  acked : ∀ t h, s.handlers t = some h → h.copy.pub = p → .acked t h.copy ∈ s.broker.log
  republished : puts p .process s.broker.log = (List.range n).map fun j => copyAt p m a (j + 1)
  committed : commits p s.history = if succeeded then [copyAt p m a n] else []
  row : Processed s.db m ↔ succeeded = true
  dead : puts p .dlq s.broker.log = if succeeded then [] else [copyAt p m a n]
  gone : Gone p s

/-- What is documented of a message with attempt `a` when `WORKER_RETRIES` is `R`: it succeeds at the
attempt `stopOnAttempt`, if its retries take it there, and otherwise fails until they are used up. -/
def Documented (state : Nat → State π) (p : Nat) (m : ProcessOrderMessage) (sim : SimulatedFailure)
    (a : Int) (R : Nat) : Prop :=
  (∀ k : Int, sim.stopOnAttempt = some (.ofInt k) → a ≤ k → k ≤ max a R →
    ∃ N, ∀ j ≥ N, Completed (state j) p m a (k - a).toNat true) ∧
  ((∀ k : Int, sim.stopOnAttempt = some (.ofInt k) → ¬ (a ≤ k ∧ k ≤ max a R)) →
    ∃ N, ∀ j ≥ N, Completed (state j) p m a (max a R - a).toNat false)

section Law

variable {maxRetries : Number} {R p : Nat} {m : ProcessOrderMessage} {a : Int} {s : State π}
  {i : Nat} {c : Nat × Place π} {succeeded : Bool} {sim : SimulatedFailure} {db₀ : Db}

theorem copyAfter_exact (hattempt : m.attempt = .ofInt a) (hlow : -2 ^ 53 ≤ a)
    (hhigh : a + i ≤ max a (2 ^ 53)) : copyAfter p m i = copyAt p m a i := by
  rw [copyAfter, hattempt, counted_exact hlow hhigh, copyAt]

theorem Tracked.completed (ht : Tracked maxRetries p m s (i, .done succeeded)) (ha : Attended s)
    (hgone : Gone p s) (hexact : ∀ j ≤ i, copyAfter p m j = copyAt p m a j) :
    Completed s p m a i succeeded where
  handled := by
    obtain ⟨tags, hnodup, htags, hcopies⟩ := ht.place.handled
    refine ⟨tags, hnodup, htags, hcopies.trans (List.map_congr_left fun j hj => ?_)⟩
    rw [hexact j (Nat.le_of_lt_succ (List.mem_range.mp hj))]
  acked := by
    intro t h hh hpub
    rcases ha.acked t h hh with ⟨d, hd, rfl⟩ | hlog
    · -- an unsettled delivery would be one of the message
      obtain ⟨h', hh', -, hcopy, -⟩ := ha.handler d hd
      obtain rfl := Option.some.inj (hh.symm.trans hh')
      exact absurd (hcopy ▸ hpub) (hgone.unsettled d hd)
    · exact hlog
  republished := by
    refine ht.place.retried.trans (List.map_congr_left fun j hj => ?_)
    exact hexact (j + 1) (List.mem_range.mp hj)
  committed := by
    rw [← hexact i (Nat.le_refl i)]
    exact ht.place.committed
  row := ht.place.row
  dead := by
    rw [ht.place.dead, ← hexact i (Nat.le_refl i)]
    cases succeeded <;> rfl
  gone := hgone

/-- Nothing is handled with an attempt that is left out. -/
theorem Tracked.not_completed (ht : Tracked maxRetries p m s c) (hattempt : m.attempt = .ofInt a)
    (hlow : -2 ^ 53 ≤ a) (hdouble : Number.round a = .ofInt a) {n : Nat}
    (hn : max a (2 ^ 53) < a + n) : ¬ Completed s p m a n succeeded := by
  intro hcompleted
  obtain ⟨tags, -, htags, hcopies⟩ := hcompleted.handled
  obtain ⟨j, hj⟩ := Int.eq_ofNat_of_zero_le (Int.sub_nonneg_of_le (by omega : a ≤ max a (2 ^ 53) + 1))
  have hmem : some (copyAt p m a j) ∈ tags.map fun t => (s.handlers t).map (·.copy) := by
    rw [hcopies]
    exact List.mem_map.mpr ⟨j, List.mem_range.mpr (by omega), rfl⟩
  obtain ⟨t, ht', hcopy⟩ := List.mem_map.mp hmem
  -- the copies that were handled have the attempts the worker counts
  obtain ⟨tags', -, htags', hcopies'⟩ := ht.place.handled
  have hmem' : some (copyAt p m a j) ∈ tags'.map fun t => (s.handlers t).map (·.copy) :=
    List.mem_map.mpr ⟨t, (htags' t).mpr ((htags t).mp ht'), hcopy⟩
  rw [hcopies'] at hmem'
  obtain ⟨j', -, heq⟩ := List.mem_map.mp hmem'
  have hattempts := congrArg (fun c : Copy => c.message.attempt) (Option.some.inj heq)
  refine counted_ne (i := j') hlow hdouble ?_
  rw [← hattempt]
  refine hattempts.trans ?_
  show Number.ofInt (a + j) = _
  rw [← hj, add_sub_cancel]

/-! ## The number of retries -/

theorem stops_iff (hsim : m.simulateFailure = some sim) (k : Int) :
    Stops m (.ofInt k) = true ↔ sim.stopOnAttempt = some (.ofInt k) := by
  rw [Stops, hsim, Option.any_some]
  cases sim.stopOnAttempt with
  | none => exact iff_of_false Bool.false_ne_true (by simp)
  | some stop => rw [Option.any_some, Number.strictEq_ofInt, Option.some.injEq]

/-- Below the last attempt the number of retries is compared exactly. -/
theorem ge_retries_iff (hdouble : Number.round a = .ofInt a) (hlow : -2 ^ 53 ≤ a) {k : Int}
    (hfirst : a ≤ k) (hhigh : k ≤ max a (2 ^ 53)) (hfar : (R : Int) ≤ max a (2 ^ 53) ∨ k < 2 ^ 53) :
    (Number.ofInt k).ge (.round R) = true ↔ (R : Int) ≤ k := by
  by_cases hR : (R : Int) ≤ 2 ^ 53
  · have hround : Number.round R = .ofInt R := Number.round_safe (abs_le.mpr ⟨by omega, hR⟩)
    rw [hround, Number.ge_ofInt, decide_eq_true_eq]
  · rcases hfar with hfar | hfar
    · -- then all attempts are at least `a`, and `a` at least `R`
      have hRa : (R : Int) ≤ a := by omega
      obtain rfl : k = a := by omega
      exact iff_of_true (Number.ge_round hdouble (by exact_mod_cast hRa)) hRa
    · have hRq : (2 ^ 53 : ℚ) ≤ R := by exact_mod_cast (not_le.mp hR).le
      exact iff_of_false (by rw [Number.not_ge_round hfar hRq]; exact Bool.false_ne_true) (by omega)

theorem counted_upTo (hattempt : m.attempt = .ofInt a) (hlow : -2 ^ 53 ≤ a) {k : Int}
    (hfirst : a ≤ k) (hhigh : k ≤ max a (2 ^ 53)) {j : Nat} (hj : j ≤ (k - a).toNat) :
    counted m.attempt j = .ofInt (a + j) := by
  rw [hattempt]
  exact counted_exact hlow (by omega)

/-- The attempt at which it succeeds ends the chain. -/
theorem endsBy_stop (hsim : m.simulateFailure = some sim) (hattempt : m.attempt = .ofInt a)
    (hlow : -2 ^ 53 ≤ a) {k : Int} (hstop : sim.stopOnAttempt = some (.ofInt k)) (hfirst : a ≤ k)
    (hhigh : k ≤ max a (2 ^ 53)) : EndsBy maxRetries m (k - a).toNat := by
  refine .inl ?_
  rw [counted_upTo hattempt hlow hfirst hhigh (Nat.le_refl _), stops_iff hsim, hstop]
  congr 2
  omega

/-- And so does the limit. -/
theorem endsBy_limit (hattempt : m.attempt = .ofInt a) (hlow : -2 ^ 53 ≤ a)
    (hdouble : Number.round a = .ofInt a) (hR : (R : Int) ≤ max a (2 ^ 53)) :
    EndsBy (.round R) m (max a R - a).toNat := by
  refine .inr ?_
  rw [counted_upTo hattempt hlow (le_max_left a R) (by omega) (Nat.le_refl _),
    ge_retries_iff hdouble hlow (by omega) (by omega) (.inl hR)]
  omega

omit [DecidableEq π] in
/-- The message succeeds at the attempt it is told to, if its retries take it there. -/
theorem Sound.succeeds (hs : Sound (.round R) m ((i, .done succeeded) : Nat × Place π))
    (hsim : m.simulateFailure = some sim) (hattempt : m.attempt = .ofInt a) (hlow : -2 ^ 53 ≤ a)
    (hdouble : Number.round a = .ofInt a) {k : Int} (hstop : sim.stopOnAttempt = some (.ofInt k))
    (hfirst : a ≤ k) (hlast : k ≤ max a R) (hhigh : k ≤ max a (2 ^ 53)) :
    i = (k - a).toNat ∧ succeeded = true := by
  have hle : i ≤ (k - a).toNat := hs.le_last (endsBy_stop hsim hattempt hlow hstop hfirst hhigh)
  have hfits := hs.fits
  simp only [counted_upTo hattempt hlow hfirst hhigh hle] at hfits
  have hstops : Stops m (.ofInt (a + i)) = true ↔ a + i = k := by
    rw [stops_iff hsim, hstop, Option.some.injEq, Number.ofInt_inj, eq_comm]
  cases succeeded with
  | true =>
    have hk := hstops.mp hfits
    exact ⟨by omega, rfl⟩
  | false =>
    obtain ⟨hmissed, hge⟩ := hfits
    have hpast : ¬ a + i = k := fun heq => by
      rw [hstops.mpr heq] at hmissed
      cases hmissed
    -- `k` is one of the attempts before the last
    rw [ge_retries_iff hdouble hlow (by omega) (by omega) (.inr (by omega))] at hge
    omega

omit [DecidableEq π] in
/-- Otherwise it fails until its retries are used up. -/
theorem Sound.fails (hs : Sound (.round R) m ((i, .done succeeded) : Nat × Place π))
    (hsim : m.simulateFailure = some sim) (hattempt : m.attempt = .ofInt a) (hlow : -2 ^ 53 ≤ a)
    (hdouble : Number.round a = .ofInt a) (hR : (R : Int) ≤ max a (2 ^ 53))
    (hstop : ∀ k : Int, sim.stopOnAttempt = some (.ofInt k) → ¬ (a ≤ k ∧ k ≤ max a R)) :
    i = (max a R - a).toNat ∧ succeeded = false := by
  have hle : i ≤ (max a R - a).toNat := hs.le_last (endsBy_limit hattempt hlow hdouble hR)
  have hfits := hs.fits
  simp only [counted_upTo hattempt hlow (le_max_left a (R : Int)) (by omega) hle] at hfits
  cases succeeded with
  | true =>
    have hk := (stops_iff hsim (a + i)).mp hfits
    exact absurd ⟨by omega, by omega⟩ (hstop _ hk)
  | false =>
    have hlast := (ge_retries_iff hdouble hlow (by omega) (by omega) (.inl hR)).mp hfits.2
    exact ⟨by omega, rfl⟩

/-! ## The law -/

/-- A message with a simulated failure, in a run in which nothing else fails.  It is the only one
under its id, some process runs, and steps for it are not put off for ever.  What is documented comes
true exactly when the last attempt is the first one, or not beyond 2^53. -/
theorem retry_chain_law_iff {n : Nat}
    (r : System.Run (system (.round R) db₀ : System (State π) (Label π)) (Undisturbed m.messageId p))
    (hpublish : r.label n = .publish m) (hp : (r.state n).nextPub = p)
    (hsim : m.simulateFailure = some sim) (hattempt : m.attempt = .ofInt a)
    (hdouble : Number.round a = .ofInt a) (hlow : -2 ^ 53 ≤ a)
    (hrow : ¬ Processed (r.state n).db m) (hstarted : ∃ k o, (r.state k).running o = true)
    (hfair : r.Fair (Works p)) :
    Documented r.state p m sim a R ↔ (R : Int) ≤ max a (2 ^ 53) ∨
      ∃ k : Int, sim.stopOnAttempt = some (.ofInt k) ∧ a ≤ k ∧ k ≤ max a (2 ^ 53) := by
  -- a chain that ends within the exact attempts is as the abstract one
  have hends {last : Nat} (hlast : EndsBy (.round R) m last) (hhigh : a + last ≤ max a (2 ^ 53)) :
      ∃ i succeeded, Sound (.round R) m ((i, .done succeeded) : Nat × Place π) ∧
        ∃ N, ∀ j ≥ N, Completed (r.state j) p m a i succeeded := by
    obtain ⟨i, succeeded, N, hends⟩ := run_ends r hsim hpublish hp hrow hstarted hfair hlast
    have hsound := (hends N (Nat.le_refl N)).1.sound
    have hle : i ≤ last := hsound.le_last hlast
    refine ⟨i, succeeded, hsound, N, fun j hj => ?_⟩
    exact (hends j hj).1.completed (reachable_attended (r.reach j)) (hends j hj).2 fun k hk =>
      copyAfter_exact hattempt hlow (by omega)
  have hfar {k : Int} {succeeded : Bool} (hk : max a (2 ^ 53) < k) :
      ¬ ∃ N, ∀ j ≥ N, Completed (r.state j) p m a (k - a).toNat succeeded := by
    rintro ⟨N, hN⟩
    obtain ⟨c, ht⟩ := run_tracked r hsim hpublish hp hrow (Nat.lt_succ_of_le (Nat.le_max_left n N))
    exact ht.not_completed hattempt hlow hdouble (by omega) (hN _ (by omega))
  constructor
  · rintro ⟨hsucceeds, hfails⟩
    by_contra hout
    obtain ⟨hR, hnone⟩ := not_or.mp hout
    by_cases hstop : ∃ k : Int, sim.stopOnAttempt = some (.ofInt k) ∧ a ≤ k ∧ k ≤ max a R
    · obtain ⟨k, hstop, hfirst, hlast⟩ := hstop
      refine hfar (not_le.mp fun hhigh => hnone ⟨k, hstop, hfirst, hhigh⟩)
        (hsucceeds k hstop hfirst hlast)
    · refine hfar (k := max a R) (by omega) (hfails fun k hk hin => hstop ⟨k, hk, hin⟩)
  · intro hin
    constructor
    · intro k hstop hfirst hlast
      have hhigh : k ≤ max a (2 ^ 53) := by
        rcases hin with hR | ⟨k', hstop', -, hhigh⟩
        · omega
        · rw [hstop, Option.some.injEq, Number.ofInt_inj] at hstop'
          omega
      obtain ⟨i, succeeded, hsound, hcompleted⟩ :=
        hends (endsBy_stop hsim hattempt hlow hstop hfirst hhigh) (by omega)
      obtain ⟨rfl, rfl⟩ := hsound.succeeds hsim hattempt hlow hdouble hstop hfirst hlast hhigh
      exact hcompleted
    · intro hstop
      have hR : (R : Int) ≤ max a (2 ^ 53) := by
        rcases hin with hR | ⟨k, hk, hfirst, hhigh⟩
        · exact hR
        · have := hstop k hk
          omega
      obtain ⟨i, succeeded, hsound, hcompleted⟩ :=
        hends (endsBy_limit hattempt hlow hdouble hR) (by omega)
      obtain ⟨rfl, rfl⟩ := hsound.fails hsim hattempt hlow hdouble hR hstop
      exact hcompleted

end Law

/-! ## Runs of one process -/

section Listed

variable {maxRetries : Number} {m : ProcessOrderMessage} {ls : List (Label Unit)}

/-- The message is published on empty queues, and the steps of `ls` follow. -/
def listedRun (maxRetries : Number) (m : ProcessOrderMessage) (ls : List (Label Unit))
    (hallowed : ∀ l ∈ ls, ∀ s : State Unit, Undisturbed m.messageId 0 s l)
    (hrun : (State.run maxRetries ⟨0, 0⟩ (.initial ⟨[], [], [], []⟩)
      (.publish m :: ls)).isSome = true) : System.Run
    (system maxRetries ⟨[], [], [], []⟩ : System (State Unit) (Label Unit))
    (Undisturbed m.messageId 0) where
  state := State.after maxRetries ⟨0, 0⟩ (.initial ⟨[], [], [], []⟩) (.publish m :: ls)
  label n := (Label.publish m :: ls).getD n .shop
  init := rfl
  allowed := by
    intro n
    match n with
    | 0 => exact fun _ => rfl
    | n + 1 =>
      show Undisturbed _ _ _ (ls.getD n .shop)
      rw [List.getD_eq_getElem?_getD]
      cases hl : ls[n]? with
      | none => exact trivial
      | some l => exact hallowed l (List.mem_of_getElem? hl) _
  step := step_after hrun

/-- It is fair, if it ends with nothing left of the message. -/
theorem listedRun_fair {sim : SimulatedFailure} (hsim : m.simulateFailure = some sim)
    (hallowed : ∀ l ∈ ls, ∀ s : State Unit, Undisturbed m.messageId 0 s l)
    (hrun : (State.run maxRetries ⟨0, 0⟩ (.initial ⟨[], [], [], []⟩)
      (.publish m :: ls)).isSome = true)
    (hends : (State.run maxRetries ⟨0, 0⟩ (.initial ⟨[], [], [], []⟩) (.publish m :: ls)).any
      (fun s => s.broker.unsettled.isEmpty ∧ (s.broker.queues .process).isEmpty) = true) :
    (listedRun maxRetries m ls hallowed hrun).Fair (Works 0) := by
  obtain ⟨s, hs, hempty⟩ := (Option.any_eq_true _ _).mp hends
  intro n hpossible
  have hstate : (listedRun maxRetries m ls hallowed hrun).state (max n (ls.length + 1)) = s :=
    run_eq_after hs (Nat.le_max_right ..)
  have hgone : Gone 0 ((listedRun maxRetries m ls hallowed hrun).state (max n (ls.length + 1))) := by
    simp only [decide_eq_true_eq, List.isEmpty_iff] at hempty
    rw [hstate]
    exact ⟨by rw [hempty.2]; simp, by rw [hempty.1]; simp⟩
  obtain ⟨⟨i, pl⟩, ht⟩ := run_tracked (k := max n (ls.length + 1)) (n := 0)
    (listedRun maxRetries m ls hallowed hrun) hsim rfl rfl List.not_mem_nil (by omega)
  obtain ⟨succeeded, rfl⟩ := ht.done ((listedRun maxRetries m ls hallowed hrun).reach _) hgone
  exact absurd (hpossible _ (Nat.le_max_left ..)) (ht.not_possible hgone)

end Listed

/-! ## A message that succeeds at its second attempt -/

/-- Its processing fails once. -/
def untilSecond : ProcessOrderMessage :=
  { ProcessOrderMessage.new (.ofNat 100) (.ofNat 100) 0 with
    simulateFailure := some { reason := "declined", stopOnAttempt := some (.ofInt 2) } }

def untilSecondLabels : List (Label Unit) :=
  [.start (), .deliver (), .advance 0 .none, .advance 0 .none, .advance 0 .none, .advance 0 .none,
    .advance 0 .none, .takePair (), .deliver (), .advance 1 .none, .advance 1 .none,
    .advance 1 .none, .advance 1 .none, .take ()]

/-- The run of one process with `WORKER_RETRIES = 3`. -/
def untilSecondRun : System.Run
    (system (.round (3 : Nat)) ⟨[], [], [], []⟩ : System (State Unit) (Label Unit))
    (Undisturbed untilSecond.messageId 0) :=
  listedRun _ untilSecond untilSecondLabels (by simp [untilSecondLabels, Undisturbed])
    (by decide +kernel)

theorem untilSecond_documented :
    Documented untilSecondRun.state 0 untilSecond ⟨"declined", some (.ofInt 2)⟩ 1 3 := by
  have hfair : untilSecondRun.Fair (Works 0) := listedRun_fair rfl _ _ (by decide +kernel)
  refine (retry_chain_law_iff (n := 0) untilSecondRun rfl rfl rfl rfl
    (Number.round_safe (by decide)) (by decide) List.not_mem_nil ⟨2, (), by decide +kernel⟩
    hfair).mpr (.inl (by decide))

/-! ## A message whose attempts are not counted one by one -/

/-- Its attempt is 2^53 + 2, and it fails each time. -/
def beyondExact : ProcessOrderMessage :=
  { ProcessOrderMessage.new (.ofNat 100) (.ofNat 100) 0 with
    attempt := .ofInt (2 ^ 53 + 2)
    simulateFailure := some { reason := "declined", stopOnAttempt := none } }

def beyondExactLabels : List (Label Unit) :=
  [.start (), .deliver (), .advance 0 .none, .advance 0 .none, .advance 0 .none, .advance 0 .none,
    .advance 0 .none, .takePair (), .deliver (), .advance 1 .none, .advance 1 .none,
    .advance 1 .none, .advance 1 .none, .takePair ()]

/-- The run of one process with `WORKER_RETRIES = 9007199254740996`. -/
def beyondExactRun : System.Run
    (system (.round (2 ^ 53 + 4 : Nat)) ⟨[], [], [], []⟩ : System (State Unit) (Label Unit))
    (Undisturbed beyondExact.messageId 0) :=
  listedRun _ beyondExact beyondExactLabels (by simp [beyondExactLabels, Undisturbed])
    (by decide +kernel)

/-- After 2^53 + 2 comes 2^53 + 4, so it is handled twice and not three times. -/
theorem beyondExact_undocumented :
    beyondExactRun.label 0 = .publish beyondExact ∧
    ¬ Processed (beyondExactRun.state 0).db beyondExact ∧
    (∃ k o, (beyondExactRun.state k).running o = true) ∧ beyondExactRun.Fair (Works 0) ∧
    ¬ Documented beyondExactRun.state 0 beyondExact ⟨"declined", none⟩ (2 ^ 53 + 2)
      (2 ^ 53 + 4) := by
  refine ⟨rfl, List.not_mem_nil, ⟨2, (), by decide +kernel⟩,
    listedRun_fair rfl _ _ (by decide +kernel), fun hdocumented => ?_⟩
  obtain ⟨N, hN⟩ := hdocumented.2 fun k hk => by cases hk
  have hdouble : Number.round ((2 ^ 53 + 2 : Int) : ℚ) = .ofInt (2 ^ 53 + 2) := by decide +kernel
  obtain ⟨c, ht⟩ := run_tracked (k := N + 1) (n := 0) beyondExactRun rfl rfl rfl List.not_mem_nil
    (Nat.succ_pos N)
  exact ht.not_completed rfl (by decide) hdouble (by decide) (hN _ (Nat.le_succ N))

end Ecommerce.Worker
