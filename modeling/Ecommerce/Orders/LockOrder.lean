import Ecommerce.Orders.Results

/-!
# LockOrder — who waits for whom

A call waits for another at its insert, while the other's insert of the same pair is uncommitted, or
at its locked read, while the other holds the next row.  A call that waits at its insert holds
nothing, so only the row locks can close a cycle, and they cannot when every locked read visits its
rows in one common order.  `findByIds` asks for no order, and two calls that visit the same rows in
opposite orders do wait for each other.
-/

namespace Ecommerce.Orders

open Locking Transition

variable {ι : Type} [DecidableEq ι] {env : Env ι} {db₀ : Db}

/-- The locked read of `c` waits for a row that `d` holds. -/
def RowWaits (s : Sys ι) (c d : ι) : Prop :=
  ∃ tx id todo, s.calls c = .locking tx (id :: todo) ∧ s.rowLocks id = some d

/-- The insert of `c` waits for the outcome of `d`'s. -/
def KeyWaits (env : Env ι) (s : Sys ι) (c d : ι) : Prop :=
  s.calls c = .begun ∧ ∃ pair, (env.request c).pair = some pair ∧ s.db.orderByKey pair = none ∧
    s.keyLocks pair = some d

def WaitsFor (env : Env ι) (s : Sys ι) (c d : ι) : Prop := RowWaits s c d ∨ KeyWaits env s c d

section Waiting

variable {s : Sys ι} {c d e : ι}

omit [DecidableEq ι] in
/-- Whoever is waited for has inserted its order and not finished its transaction. -/
theorem Inv.waited_for (h : Inv env db₀ s) (hw : WaitsFor env s c d) :
    ∃ tx, (s.calls d).tx? = some tx := by
  rcases hw with ⟨tx, id, todo, -, hlock⟩ | ⟨-, pair, -, -, hlock⟩
  · have hmem := (h.rowLocks id d).mp hlock
    obtain ⟨r, hr, -⟩ := List.mem_map.mp hmem
    cases htx : (s.calls d).tx? with
    | some tx' => exact ⟨tx', rfl⟩
    | none =>
      rw [Phase.rows, htx] at hr
      cases hr
  · obtain ⟨tx', htx', -⟩ := Option.map_eq_some_iff.mp ((h.keyLocks pair d).mp hlock)
    exact ⟨tx', htx'⟩

omit [DecidableEq ι] in
theorem rowWaits_iff : RowWaits s c d ↔ (s.calls c).todo.head?.bind s.rowLocks = some d := by
  constructor
  · rintro ⟨tx, id, todo, hc, hlock⟩
    rw [hc]
    exact hlock
  · intro h
    generalize hc : s.calls c = ph at h
    cases ph with
    | locking tx todo =>
      cases todo with
      | nil => cases h
      | cons id todo => exact ⟨tx, id, todo, hc, h⟩
    | _ => cases h

omit [DecidableEq ι] in
/-- Whoever waits and is waited for is in its locked read. -/
theorem Inv.waits_for_row (h : Inv env db₀ s) (hw : WaitsFor env s c d)
    (hwd : WaitsFor env s d e) : RowWaits s d e := by
  obtain ⟨tx, htx⟩ := h.waited_for hw
  rcases hwd with hrow | ⟨hbegun, -⟩
  · exact hrow
  · rw [hbegun] at htx
    cases htx

/-- The row a call wants next. -/
def Sys.wants (s : Sys ι) (c : ι) : Option UUID := (s.calls c).todo.head?

/-- Later in the order `r`, and later than no row at all. -/
def Later (r : UUID → UUID → Prop) : Option UUID → Option UUID → Prop
  | none, some _ => True
  | some a, some b => r a b
  | _, none => False

theorem later_irrefl {r : UUID → UUID → Prop} (h : ∀ a, ¬ r a a) (a : Option UUID) :
    ¬ Later r a a := by
  cases a with
  | none => exact id
  | some a => exact h a

theorem later_trans {r : UUID → UUID → Prop} (h : ∀ a b c, r a b → r b c → r a c)
    (a b c : Option UUID) (hab : Later r a b) (hbc : Later r b c) : Later r a c := by
  cases a <;> cases b <;> cases c <;> simp only [Later] at hab hbc ⊢
  exact h _ _ _ hab hbc

omit [DecidableEq ι] in
theorem RowWaits.wants (h : RowWaits s c d) :
    ∃ tx id todo, s.calls c = .locking tx (id :: todo) ∧ s.rowLocks id = some d ∧
      s.wants c = some id := by
  obtain ⟨tx, id, todo, hc, hlock⟩ := h
  exact ⟨tx, id, todo, hc, hlock, by rw [Sys.wants, hc]; rfl⟩

omit [DecidableEq ι] in
/-- What `d` wants comes after what it holds, when its locked read follows the order. -/
theorem Inv.wants_later (h : Inv env db₀ s) {r : UUID → UUID → Prop}
    (hscan : ∀ c ids, (env.request c).ids = .ok ids →
      ((env.choices c).scan (db₀.matchingIds ids)).Pairwise r)
    {tx : Tx} {id id' : UUID} {todo : List UUID} (hd : s.calls d = .locking tx (id :: todo))
    (hlock : s.rowLocks id' = some d) : r id' id := by
  have hph := h.phases d
  rw [hd] at hph
  obtain ⟨-, -, -, ids, hids, heq⟩ := hph
  have hheld : id' ∈ tx.lockedIds := by
    have hmem : id' ∈ (s.calls d).rows.map (·.id) := (h.rowLocks id' d).mp hlock
    rwa [hd] at hmem
  have hpair := hscan d ids hids
  rw [← heq, List.pairwise_append] at hpair
  exact hpair.2.2 id' hheld id (List.mem_cons_self ..)

omit [DecidableEq ι] in
/-- One common order of the locked reads leaves no cycle. -/
theorem Inv.waitsFor_acyclic (h : Inv env db₀ s) {r : UUID → UUID → Prop} (hirr : ∀ a, ¬ r a a)
    (htrans : ∀ a b c, r a b → r b c → r a c)
    (hscan : ∀ c ids, (env.request c).ids = .ok ids →
      ((env.choices c).scan (db₀.matchingIds ids)).Pairwise r) :
    Acyclic (WaitsFor env s) := by
  refine acyclic_of_ordered (Later r) (later_irrefl hirr) (later_trans htrans) s.wants ?_
  intro c d e hcd hde
  obtain ⟨tx, id, todo, hd, -, hwd⟩ := (h.waits_for_row hcd hde).wants
  rw [hwd]
  rcases hcd with hrow | ⟨hbegun, -⟩
  · obtain ⟨-, id', -, -, hlock, hwc⟩ := hrow.wants
    rw [hwc]
    exact h.wants_later hscan hd hlock
  · rw [Sys.wants, hbegun]
    trivial

end Waiting

/-! ## Every run -/

/-- No state of a run has a deadlock when every locked read visits its rows in one order. -/
theorem waitsFor_acyclic_of_common_order {n : Nat} {s : Sys ι} {r : UUID → UUID → Prop}
    (hirr : ∀ a, ¬ r a a) (htrans : ∀ a b c, r a b → r b c → r a c) (hv : db₀.Valid)
    (hf : FreshIds env db₀)
    (hscan : ∀ c ids, (env.request c).ids = .ok ids →
      ((env.choices c).scan (db₀.matchingIds ids)).Pairwise r)
    (hr : Reachable env n db₀ s) : Acyclic (WaitsFor env s) :=
  (hr.inv hv hf).waitsFor_acyclic hirr htrans hscan

/-- Two calls for both products of the shop whose locked reads visit them in the same order: one
waits for the other, and there is no cycle. -/
theorem waitsFor_acyclic_of_common_order_shop :
    ∃ (env : Env (Fin 2)) (s : Sys (Fin 2)), RowWaits s 1 0 ∧ Acyclic (WaitsFor env s) := by
  let env := shopEnv (fun _ => false) fun c => shopRequest 50 (60 + c) [1, 2]
  let p : Sys (Fin 2) → Bool := fun s => (s.calls 1).todo.head?.bind s.rowLocks = some 0
  obtain ⟨s, hr, hs⟩ := reach_of_run env 2 shop [0, 0, 0, 0, 1, 1, 1]
    (show Option.any p _ = true by decide +kernel)
  have hfresh : FreshIds env shop := freshIds_shop _ _
  let r : UUID → UUID → Prop := fun a b => (a, b) = (.ofNat 1, .ofNat 2)
  have hscan : ∀ c ids, (env.request c).ids = .ok ids →
      ((env.choices c).scan (shop.matchingIds ids)).Pairwise r := by
    intro c ids hids
    have hsub : (shop.matchingIds ids).Sublist [.ofNat 1, .ofNat 2] :=
      List.Sublist.map (fun p : Product => p.id) (List.filter_sublist (l := shop.products))
    exact (List.pairwise_pair.mpr rfl : [UUID.ofNat 1, .ofNat 2].Pairwise r).sublist hsub
  refine ⟨env, s, rowWaits_iff.mpr (by simpa [p] using hs),
    waitsFor_acyclic_of_common_order ?_ ?_ (by decide) hfresh hscan hr.any⟩
  · intro a h
    have h1 := congrArg Prod.fst h
    have h2 := congrArg Prod.snd h
    exact absurd (h1.symm.trans h2) (by decide)
  · intro a b c hab hbc
    have h1 := congrArg Prod.snd hab
    have h2 := congrArg Prod.fst hbc
    exact absurd (h1.symm.trans h2) (by decide)

/-- With opposite orders, each of the two calls holds the row the other wants next. -/
theorem waitsFor_cycle_of_opposite_orders :
    ∃ (env : Env (Fin 2)) (s : Sys (Fin 2)), (system env 2 shop).Reach ownStep s ∧
      RowWaits s 0 1 ∧ RowWaits s 1 0 ∧ ¬ Acyclic (WaitsFor env s) := by
  let env := shopEnv (fun c => c = 1) fun c => shopRequest 50 (60 + c) [1, 2]
  let p : Sys (Fin 2) → Bool := fun s =>
    ((s.calls 0).todo.head?.bind s.rowLocks = some 1 : Bool) &&
      ((s.calls 1).todo.head?.bind s.rowLocks = some 0 : Bool)
  obtain ⟨s, hr, hs⟩ := reach_of_run env 2 shop [0, 0, 0, 0, 1, 1, 1, 1]
    (show Option.any p _ = true by decide +kernel)
  simp only [p, Bool.and_eq_true, decide_eq_true_eq] at hs
  have h01 : RowWaits s 0 1 := rowWaits_iff.mpr hs.1
  have h10 : RowWaits s 1 0 := rowWaits_iff.mpr hs.2
  exact ⟨env, s, hr, h01, h10, fun hacyc => hacyc 0 (.tail (.single (.inl h01)) (.inl h10))⟩

end Ecommerce.Orders
