import Ecommerce.Lib.Fairness
import Ecommerce.Worker.HandlerSteps

/-!
# RetryChain — what is to become of a message with a simulated failure

The abstract chain: one copy of the message at a time, at a place on its way through the queue, a
handler and a channel, with the number of retries before it.  It says what the worker is for; the
modules after this one show that the worker does the same.  Attempts are counted in doubles.
-/

namespace Ecommerce.Worker

open Amqp Orders Transition

/-- The message with another attempt. -/
def attemptNo (m : ProcessOrderMessage) (k : Number) : ProcessOrderMessage := { m with attempt := k }

/-- The attempt after `i` retries of a message with attempt `first`. -/
def counted (first : Number) : Nat → Number
  | 0 => first
  | i + 1 => (counted first i).plus (.ofInt 1)

/-- Whether the simulated failure stops at attempt `k`. -/
def Stops (m : ProcessOrderMessage) (k : Number) : Bool :=
  m.simulateFailure.any fun sim => sim.stopOnAttempt.any (·.strictEq k)

/-- Where the one copy is. -/
inductive Place (π : Type) where
  | queued
  | handled (tag : Nat) (owner : π) (ph : Phase)
  -- the handler has written the next copy, or the one for `orders.dlq`
  | sending (tag : Nat) (owner : π)
  | done (succeeded : Bool)

section Chain

variable {π : Type} (maxRetries : Number) (m : ProcessOrderMessage)

/-- One step of the chain; the first component counts the retries. -/
inductive Move : Nat × Place π → Nat × Place π → Prop
  | deliver (i tag : Nat) (o : π) : Move (i, .queued) (i, .handled tag o .started)
  | insert (i tag : Nat) (o : π) : Move (i, .handled tag o .started) (i, .handled tag o .inserted)
  | throws (i tag : Nat) (o : π) (h : Stops m (counted m.attempt i) = false) :
      Move (i, .handled tag o .inserted) (i, .handled tag o .aborting)
  | succeeds (i tag : Nat) (o : π) (h : Stops m (counted m.attempt i) = true) :
      Move (i, .handled tag o .inserted) (i, .handled tag o (.processed none))
  | commit (i tag : Nat) (o : π) :
      Move (i, .handled tag o (.processed none)) (i, .handled tag o .resolved)
  | rollback (i tag : Nat) (o : π) :
      Move (i, .handled tag o .aborting) (i, .handled tag o .rejected)
  | ack (i tag : Nat) (o : π) : Move (i, .handled tag o .resolved) (i, .done true)
  | giveUp (i tag : Nat) (o : π) (h : (counted m.attempt i).ge maxRetries = true) :
      Move (i, .handled tag o .rejected) (i, .sending tag o)
  | wait (i tag : Nat) (o : π) (h : (counted m.attempt i).ge maxRetries = false) :
      Move (i, .handled tag o .rejected) (i, .handled tag o .backoff)
  | fire (i tag : Nat) (o : π) : Move (i, .handled tag o .backoff) (i, .sending tag o)
  | retry (i tag : Nat) (o : π) (h : (counted m.attempt i).ge maxRetries = false) :
      Move (i, .sending tag o) (i + 1, .queued)
  | dead (i tag : Nat) (o : π) (h : (counted m.attempt i).ge maxRetries = true) :
      Move (i, .sending tag o) (i, .done false)

/-- What the place tells about the present attempt. -/
def Place.Fits (k : Number) : Place π → Prop
  | .queued => True
  | .handled _ _ ph => match ph with
    | .started => True
    | .inserted => True
    | .processed update => update = none ∧ Stops m k = true
    | .resolved => Stops m k = true
    | .aborting => Stops m k = false
    | .rejected => Stops m k = false
    | .backoff => Stops m k = false ∧ k.ge maxRetries = false
    | _ => False
  | .sending _ _ => Stops m k = false
  | .done true => Stops m k = true
  | .done false => Stops m k = false ∧ k.ge maxRetries = true

/-- Every earlier attempt failed and was retried. -/
structure Sound (c : Nat × Place π) : Prop where
  retried : ∀ j < c.1, Stops m (counted m.attempt j) = false ∧
    (counted m.attempt j).ge maxRetries = false
  fits : c.2.Fits maxRetries m (counted m.attempt c.1)

/-- The attempt after `last` retries is not retried. -/
def EndsBy (last : Nat) : Prop :=
  Stops m (counted m.attempt last) = true ∨ (counted m.attempt last).ge maxRetries = true

/-- How far the place is from the end of its attempt. -/
def Place.distance : Place π → Nat
  | .queued => 9
  | .handled _ _ ph => match ph with
    | .started => 8
    | .inserted => 7
    | .processed _ => 6
    | .aborting => 6
    | .resolved => 5
    | .rejected => 5
    | _ => 4
  | .sending _ _ => 3
  | .done _ => 0

/-- The retries that are left, and the way through the present attempt. -/
def chainRank (last : Nat) (c : Nat × Place π) : Nat := 10 * (last - c.1) + c.2.distance

variable {maxRetries m} {c c' : Nat × Place π} {last : Nat}

theorem sound_start : Sound maxRetries m ((0, .queued) : Nat × Place π) where
  retried := fun _ hj => absurd hj (Nat.not_lt_zero _)
  fits := trivial

theorem Sound.move (hc : Sound maxRetries m c) (h : Move maxRetries m c c') :
    Sound maxRetries m c' := by
  have hfits := hc.fits
  cases h with
  | deliver i tag o => exact ⟨hc.retried, trivial⟩
  | insert i tag o => exact ⟨hc.retried, trivial⟩
  | throws i tag o h => exact ⟨hc.retried, h⟩
  | succeeds i tag o h => exact ⟨hc.retried, rfl, h⟩
  | commit i tag o => exact ⟨hc.retried, hfits.2⟩
  | rollback i tag o => exact ⟨hc.retried, hfits⟩
  | ack i tag o => exact ⟨hc.retried, hfits⟩
  | giveUp i tag o h => exact ⟨hc.retried, hfits⟩
  | wait i tag o h => exact ⟨hc.retried, hfits, h⟩
  | fire i tag o => exact ⟨hc.retried, hfits.1⟩
  | retry i tag o h =>
    refine ⟨fun j hj => ?_, trivial⟩
    rcases Nat.lt_succ_iff_lt_or_eq.mp hj with hlt | rfl
    · exact hc.retried j hlt
    · exact ⟨hfits, h⟩
  | dead i tag o h => exact ⟨hc.retried, hfits, h⟩

theorem Sound.le_last (hc : Sound maxRetries m c) (hlast : EndsBy maxRetries m last) :
    c.1 ≤ last := by
  by_contra hlt
  obtain ⟨hfailed, hunder⟩ := hc.retried last (Nat.lt_of_not_le hlt)
  rcases hlast with hstops | hge
  · rw [hstops] at hfailed
    cases hfailed
  · rw [hge] at hunder
    cases hunder

/-- Every step brings the end nearer, if there is one. -/
theorem Move.rank_lt (h : Move maxRetries m c c') (hc : Sound maxRetries m c)
    (hlast : EndsBy maxRetries m last) : chainRank last c' < chainRank last c := by
  have hle := (hc.move h).le_last hlast
  cases h with
  | retry i tag o h =>
    simp only [chainRank, Place.distance] at hle ⊢
    omega
  | _ =>
    simp only [chainRank, Place.distance]
    omega

end Chain

end Ecommerce.Worker
