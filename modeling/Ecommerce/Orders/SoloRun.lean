import Ecommerce.Orders.CallInvariant

/-!
# SoloRun — a call that nobody gets in the way of

When the key and the product rows a call needs are free, its own steps alone take it to its end, and
what they do is what `createOrder` computes on the database before them.
-/

namespace Ecommerce.Orders

open Locking Transition

variable {ι : Type} [DecidableEq ι] {env : Env ι} {db₀ : Db}

/-- The steps of call `c` from `s` to `s'`. -/
abbrev Solo (env : Env ι) (c : ι) : Sys ι → Sys ι → Prop :=
  Relation.ReflTransGen fun s s' => s.advance env c = some s'

theorem Solo.steps {c : ι} {s s' : Sys ι} (h : Solo env c s s') (n : Nat) (db : Db) :
    (system env n db).Steps (onlyCall c) s s' :=
  Relation.ReflTransGen.mono (fun _ _ hadv => ⟨.advance c, rfl, .advance c hadv⟩) _ _ h

/-- `t` is `s` after steps of `c` alone that have written nothing: `c` is in phase `ph` and may hold
more locks than before. -/
structure Alone (s : Sys ι) (c : ι) (ph : Phase) (t : Sys ι) : Prop where
  db : t.db = s.db
  free : t.free = s.free
  history : t.history = s.history
  calls : t.calls = Function.update s.calls c ph
  rowLocks : t.rowLocks.releaseAll c = s.rowLocks.releaseAll c
  keyLocks : t.keyLocks.releaseAll c = s.keyLocks.releaseAll c

/-- `s` after the end of `c`: the database and the outcome are those of `r`, and `c`'s locks and
its connection are free again. -/
def Sys.finish (s : Sys ι) (c : ι) (r : Db × Outcome) (es : List (Event ι)) : Sys ι where
  db := r.1
  free := s.free + 1
  rowLocks := s.rowLocks.releaseAll c
  keyLocks := s.keyLocks.releaseAll c
  calls := Function.update s.calls c (.done r.2)
  history := es

section Alone

variable {s t : Sys ι} {c : ι} {ph ph' : Phase}

theorem Alone.phase (h : Alone s c ph t) : t.calls c = ph := by
  rw [h.calls, Function.update_self]

theorem Alone.start (hc : s.calls c = ph) : Alone s c ph s where
  db := rfl
  free := rfl
  history := rfl
  calls := by rw [← hc, Function.update_eq_self]
  rowLocks := rfl
  keyLocks := rfl

theorem Alone.setPhase (h : Alone s c ph t) (ph' : Phase) : Alone s c ph' (t.setPhase c ph') where
  db := h.db
  free := h.free
  history := h.history
  calls := by
    show Function.update t.calls c ph' = _
    rw [h.calls, Function.update_idem]
  rowLocks := h.rowLocks
  keyLocks := h.keyLocks

theorem Alone.releaseLocks (h : Alone s c ph t) : Alone s c ph (t.releaseLocks c) where
  db := h.db
  free := h.free
  history := h.history
  calls := h.calls
  rowLocks := by
    show (t.rowLocks.releaseAll c).releaseAll c = _
    rw [LockTable.releaseAll_releaseAll, h.rowLocks]
  keyLocks := by
    show (t.keyLocks.releaseAll c).releaseAll c = _
    rw [LockTable.releaseAll_releaseAll, h.keyLocks]

theorem Alone.acquireRow (h : Alone s c ph t) {id : UUID} (hfree : t.rowLocks id = none) :
    Alone s c ph { t with rowLocks := t.rowLocks.acquire id c } where
  db := h.db
  free := h.free
  history := h.history
  calls := h.calls
  rowLocks := (LockTable.releaseAll_acquire hfree).trans h.rowLocks
  keyLocks := h.keyLocks

theorem Alone.acquireKey (h : Alone s c ph t) {key : UUID × UUID} (hfree : t.keyLocks key = none) :
    Alone s c ph { t with keyLocks := t.keyLocks.acquire key c } where
  db := h.db
  free := h.free
  history := h.history
  calls := h.calls
  rowLocks := h.rowLocks
  keyLocks := (LockTable.releaseAll_acquire hfree).trans h.keyLocks

theorem Alone.throwing (h : Alone s c ph t) (tx : Tx) (e : Failure) :
    ∃ tx', Alone s c (.failing tx' e) (t.throwing c tx e) := by
  unfold Sys.throwing
  split
  · exact ⟨none, h.releaseLocks.setPhase _⟩
  · exact ⟨some tx, h.setPhase _⟩

/-! ## The ends of a call -/

theorem Alone.fails {tx : Option Tx} {e : Failure} (h : Alone s c (.failing tx e) t) :
    Solo env c t (s.finish c (s.db, .rejected e) s.history) := by
  refine .single ?_
  simp only [Sys.advance, h.phase, Option.some.injEq]
  ext1
  · exact h.db
  · show t.free + 1 = s.free + 1
    rw [h.free]
  · exact h.rowLocks
  · exact h.keyLocks
  · show Function.update t.calls c _ = Function.update s.calls c _
    rw [h.calls, Function.update_idem]
  · exact h.history

/-- The way of an exception, from the throw to the rejection. -/
theorem Alone.rejects (h : Alone s c ph t) (tx : Tx) {e : Failure}
    (hadv : t.advance env c = some (t.throwing c tx e)) :
    Solo env c t (s.finish c (s.db, .rejected e) s.history) := by
  obtain ⟨tx', htx'⟩ := h.throwing tx e
  exact .head hadv htx'.fails

/-- COMMIT, the release of the runner, and the send. -/
theorem Alone.commits {tx : Tx} {result : OrderView} (h : Alone s c (.reread tx result) t) :
    Solo env c t (s.finish c (s.db.apply tx, .created result)
      (s.history ++ [.committed c tx, .sent c (.new result.id result.id (env.choices c).sentAt)])) := by
  let t₁ := t.commit c tx result
  let t₂ : Sys ι := { t₁.setPhase c (.publishing result) with free := t₁.free + 1 }
  have h₁ : t.advance env c = some t₁ := by simp only [Sys.advance, h.phase, t₁]
  have h₂ : t₁.advance env c = some t₂ := by
    have hc : t₁.calls c = .committed result := by simp [t₁, Sys.commit]
    simp only [Sys.advance, hc, t₂]
  have h₃ : t₂.advance env c = some (t₂.send env c result) := by
    have hc : t₂.calls c = .publishing result := by simp [t₂]
    simp only [Sys.advance, hc]
  refine .head h₁ (.head h₂ ?_)
  refine .single (h₃.trans ?_)
  rw [Option.some.injEq]
  ext1
  · show t.db.apply tx = s.db.apply tx
    rw [h.db]
  · show t.free + 1 = s.free + 1
    rw [h.free]
  · exact h.rowLocks
  · exact h.keyLocks
  · show Function.update (Function.update (Function.update t.calls c _) c _) c _ =
      Function.update s.calls c _
    rw [h.calls, Function.update_idem, Function.update_idem, Function.update_idem]
  · show (t.history ++ [_]) ++ [_] = s.history ++ _
    rw [h.history, List.append_assoc]
    rfl

/-- The look-up of a duplicate, on a second connection. -/
theorem Alone.duplicates (h : Alone s c .duplicate t) (hfree : 0 < s.free)
    (hrows : t.rowLocks = s.rowLocks.releaseAll c) (hkeys : t.keyLocks = s.keyLocks.releaseAll c)
    {key : UUID} {o : Order}
    (hkey : UUID.ofText (env.request c).idempotencyKey = some key)
    (ho : s.db.orderByKey ((env.request c).userId, key) = some o) :
    Solo env c t (s.finish c (s.db, .duplicate (viewOrder (env.choices c) s.db o)) s.history) := by
  let t₁ : Sys ι := { t.setPhase c .lookup with free := t.free - 1 }
  let t₂ : Sys ι :=
    { t₁.setPhase c (.found (viewOrder (env.choices c) t.db o)) with free := t₁.free + 1 }
  have h₁ : t.advance env c = some t₁ := by
    simp only [Sys.advance, h.phase, h.free, if_pos hfree, t₁]
  have h₂ : t₁.advance env c = some t₂ := by
    have hc : t₁.calls c = .lookup := by simp [t₁]
    -- taking a connection leaves the database alone
    have ho' : t₁.db.orderByKey ((env.request c).userId, key) = some o := by
      rw [← ho, ← h.db]
      rfl
    simp only [Sys.advance, hc, Sys.findOneOrFail, hkey, Option.bind_some, ho', t₂]
    rfl
  refine .head h₁ (.head h₂ (.single ?_))
  have hc : t₂.calls c = .found (viewOrder (env.choices c) t.db o) := by simp [t₂]
  simp only [Sys.advance, hc, Option.some.injEq]
  ext1
  · exact h.db
  · show t.free - 1 + 1 + 1 = s.free + 1
    rw [h.free]
    omega
  · exact hrows
  · exact hkeys
  · show Function.update (Function.update (Function.update t.calls c _) c _) c _ = _
    rw [h.calls, Function.update_idem, Function.update_idem, Function.update_idem, h.db]
    rfl
  · exact h.history

/-! ## The transaction -/

/-- The locked read when nobody else holds any of the rows. -/
theorem Alone.locks {tx : Tx} {todo : List UUID} (h : Alone s c (.locking tx todo) t)
    (hnodup : todo.Nodup) (hfree : ∀ id ∈ todo, t.rowLocks id = none)
    (hrows : ∀ id ∈ todo, ∃ row, s.db.product? id = some row) :
    ∃ t', Solo env c t t' ∧
      Alone s c (.locking { tx with rows := tx.rows ++ todo.filterMap s.db.product? } []) t' := by
  induction todo generalizing tx t with
  | nil =>
    refine ⟨t, .refl, ?_⟩
    rw [List.filterMap_nil, List.append_nil]
    exact h
  | cons id todo ih =>
    rw [List.nodup_cons] at hnodup
    obtain ⟨row, hrow⟩ := hrows id (List.mem_cons_self ..)
    have hid := hfree id (List.mem_cons_self ..)
    let t₁ : Sys ι :=
      { t.setPhase c (.locking { tx with rows := tx.rows ++ [row] } todo) with
        rowLocks := t.rowLocks.acquire id c }
    have h₁ : t.advance env c = some t₁ := by
      rw [← h.db] at hrow
      simp only [Sys.advance, h.phase, Sys.lockRow, hid, hrow, if_true, t₁]
    have halone : Alone s c (.locking { tx with rows := tx.rows ++ [row] } todo) t₁ :=
      (h.setPhase _).acquireRow hid
    -- locking one row does not lock the next: the ids are distinct
    have hfree₁ : ∀ id' ∈ todo, t₁.rowLocks id' = none := by
      intro id' hid'
      have hne : id' ≠ id := fun heq => hnodup.1 (heq ▸ hid')
      show Function.update t.rowLocks id (some c) id' = none
      rw [Function.update_of_ne hne]
      exact hfree id' (List.mem_cons_of_mem _ hid')
    obtain ⟨t', hsteps, ht'⟩ := ih halone hnodup.2 hfree₁ fun id' hid' =>
      hrows id' (List.mem_cons_of_mem _ hid')
    refine ⟨t', .head h₁ hsteps, ?_⟩
    rw [List.filterMap_cons_some hrow, ← List.singleton_append, ← List.append_assoc]
    exact ht'

/-- From the locked rows to the end. -/
theorem Alone.fills {tx : Tx} (h : Alone s c (.locking tx []) t) :
    ∃ es, Solo env c t (s.finish c
      (txOutcome s.db (fillRows (env.request c) (env.choices c) s.db tx.order tx.rows)) es) := by
  unfold fillRows
  -- one case for each statement that can throw; the next runs on what it left
  cases hcheck : (env.request c).check tx.order.id tx.rows with
  | error e =>
    refine ⟨s.history, h.rejects tx ?_⟩
    simp only [Sys.advance, h.phase, Sys.check, hcheck]
  | ok r =>
    obtain ⟨partialItems, products⟩ := r
    let t₁ := t.setPhase c (.checked tx partialItems products)
    have a₁ : Alone s c (.checked tx partialItems products) t₁ := h.setPhase _
    have h₁ : t.advance env c = some t₁ := by
      simp only [Sys.advance, h.phase, Sys.check, hcheck, t₁]
    simp only [bind, Except.bind]
    cases hi : saveItems partialItems with
    | error e =>
      refine ⟨s.history, .head h₁ (a₁.rejects tx ?_)⟩
      simp only [Sys.advance, a₁.phase, Sys.insertItems, hi]
    | ok items =>
      let tx₁ : Tx := { tx with items := items }
      let t₂ := t₁.setPhase c (.itemsSaved tx₁ products)
      have a₂ : Alone s c (.itemsSaved tx₁ products) t₂ := a₁.setPhase _
      have h₂ : t₁.advance env c = some t₂ := by
        simp only [Sys.advance, a₁.phase, Sys.insertItems, hi, t₂, tx₁]
      cases hp : saveProducts products with
      | error e =>
        refine ⟨s.history, .head h₁ (.head h₂ (a₂.rejects tx₁ ?_))⟩
        simp only [Sys.advance, a₂.phase, Sys.writeStocks, hp]
      | ok stocks =>
        let tx₂ : Tx := { tx₁ with stocks := stocks }
        let t₃ := t₂.setPhase c (.stocksSaved tx₂)
        have a₃ : Alone s c (.stocksSaved tx₂) t₃ := a₂.setPhase _
        have h₃ : t₂.advance env c = some t₃ := by
          simp only [Sys.advance, a₂.phase, Sys.writeStocks, hp, t₃, tx₂]
        have htx : { order := tx.order, rows := tx.rows, items := items, stocks := stocks } =
            tx₂ := rfl
        dsimp only
        rw [htx]
        cases hr : findOne (env.choices c) (s.db.apply tx₂) tx.order.id with
        | none =>
          refine ⟨s.history, .head h₁ (.head h₂ (.head h₃ (a₃.rejects tx₂ ?_)))⟩
          simp only [Sys.advance, a₃.phase, Sys.readAgain, a₃.db]
          rw [show findOne (env.choices c) (s.db.apply tx₂) tx₂.order.id = none from hr]
        | some result =>
          have h₄ : t₃.advance env c = some (t₃.setPhase c (.reread tx₂ result)) := by
            simp only [Sys.advance, a₃.phase, Sys.readAgain, a₃.db]
            rw [show findOne (env.choices c) (s.db.apply tx₂) tx₂.order.id = some result from hr]
          exact ⟨_, .head h₁ (.head h₂ (.head h₃ (.head h₄ (a₃.setPhase _).commits)))⟩

end Alone

/-! ## The whole call -/

/-- Nobody holds the key of `c`, nor any row its locked read will visit. -/
structure Unhindered (env : Env ι) (s : Sys ι) (c : ι) : Prop where
  key : ∀ key, UUID.ofText (env.request c).idempotencyKey = some key →
    s.keyLocks ((env.request c).userId, key) = none
  rows : ∀ ids, (env.request c).ids = .ok ids → ∀ id ∈ s.db.matchingIds ids, s.rowLocks id = none

/-- A call that has begun and is not hindered runs to its end and does what `createOrder` computes;
a duplicate needs one more connection. -/
theorem solo_begun {s : Sys ι} (h : Inv env db₀ s) {c : ι} (hc : s.calls c = .begun)
    (hun : Unhindered env s c)
    (hfree : ∀ key, UUID.ofText (env.request c).idempotencyKey = some key →
      s.db.orderByKey ((env.request c).userId, key) ≠ none → 0 < s.free) :
    ∃ es, Solo env c s
      (s.finish c (createOrder (env.request c) (env.choices c) s.db) es) := by
  -- c holds nothing yet, so releasing all it holds changes nothing
  have hrows : s.rowLocks.releaseAll c = s.rowLocks := by
    refine LockTable.releaseAll_eq_self fun id => ?_
    rw [ne_eq, h.rowLocks id c]
    simp [hc, Phase.rows, Phase.tx?]
  have hkeys : s.keyLocks.releaseAll c = s.keyLocks := by
    refine LockTable.releaseAll_eq_self fun key => ?_
    rw [ne_eq, h.keyLocks key c]
    simp [hc, Phase.openKey, Phase.tx?]
  have a₀ : Alone s c .begun s := Alone.start hc
  unfold createOrder
  split
  · rename_i hnone
    refine ⟨s.history, .head (b := s.setPhase c (.failing none (.query .invalidText))) ?_
      (a₀.setPhase _).fails⟩
    simp only [Sys.advance, hc, Sys.insertOrder, hnone]
  · rename_i key hkey
    split
    · rename_i o ho
      have hdup : 0 < s.free := hfree key hkey (by rw [ho]; simp)
      refine ⟨s.history, .head (b := s.setPhase c .duplicate) ?_
        ((a₀.setPhase _).duplicates hdup hrows.symm hkeys.symm hkey ho)⟩
      simp only [Sys.advance, hc, Sys.insertOrder, hkey, ho, Option.isSome_some, if_true]
    · rename_i hnew
      let tx : Tx := .start (newOrder (env.request c) (env.choices c) key)
      let t₁ : Sys ι := { s.setPhase c (.inserted tx) with
        keyLocks := s.keyLocks.acquire ((env.request c).userId, key) c }
      have hlock := hun.key key hkey
      have a₁ : Alone s c (.inserted tx) t₁ := (a₀.setPhase _).acquireKey hlock
      have h₁ : s.advance env c = some t₁ := advance_insert hc hkey hnew hlock
      unfold fillOrder
      cases hids : (env.request c).ids with
      | error e =>
        refine ⟨s.history, .head h₁ (a₁.rejects tx ?_)⟩
        simp only [Sys.advance, a₁.phase, Sys.select, hids]
      | ok ids =>
        let todo := (env.choices c).scan (s.db.matchingIds ids)
        have a₂ : Alone s c (.locking tx todo) (t₁.setPhase c (.locking tx todo)) := a₁.setPhase _
        have h₂ : t₁.advance env c = some (t₁.setPhase c (.locking tx todo)) := by
          simp only [Sys.advance, a₁.phase, Sys.select, hids, todo]
          rfl
        have hmem : ∀ id ∈ todo, id ∈ s.db.matchingIds ids := fun id hid =>
          ((env.choices c).scan_perm _).mem_iff.mp hid
        -- a row is visited once
        have hnodup : todo.Nodup :=
          ((env.choices c).scan_perm _).nodup_iff.mpr (Db.matchingIds_nodup h.valid.productIds ids)
        have hfound : ∀ id ∈ todo, ∃ row, s.db.product? id = some row := by
          intro id hid
          obtain ⟨-, row, hrow, rfl⟩ := Db.mem_matchingIds.mp (hmem id hid)
          exact ⟨row, Db.product?_of_mem h.valid.productIds hrow⟩
        obtain ⟨t₃, h₃, a₃⟩ := a₂.locks hnodup (fun id hid => hun.rows ids hids id (hmem id hid)) hfound
        obtain ⟨es, hes⟩ := a₃.fills
        exact ⟨es, .head h₁ (.head h₂ (h₃.trans hes))⟩

/-- The same for a call that has no connection yet. -/
theorem solo_waiting {s : Sys ι} (h : Inv env db₀ s) {c : ι} (hc : s.calls c = .waiting)
    (hun : Unhindered env s c) (hpos : 0 < s.free)
    (hfree : ∀ key, UUID.ofText (env.request c).idempotencyKey = some key →
      s.db.orderByKey ((env.request c).userId, key) ≠ none → 1 < s.free) :
    ∃ s', Solo env c s s' ∧ s'.free = s.free ∧
      s'.db = (createOrder (env.request c) (env.choices c) s.db).1 ∧
      s'.calls = Function.update s.calls c
        (.done (createOrder (env.request c) (env.choices c) s.db).2) ∧
      s'.rowLocks = s.rowLocks ∧ s'.keyLocks = s.keyLocks := by
  let t : Sys ι := { s.setPhase c .begun with free := s.free - 1 }
  have hadv : s.advance env c = some t := by
    simp only [Sys.advance, hc, Sys.connect, if_pos hpos, t]
  have ht : Inv env db₀ t :=
    h.keep c (by rw [hc]; rfl) (by rw [hc]; rfl) trivial (by simp [hc, Phase.past])
  -- with its connection the call has begun
  have hbegun : t.calls c = .begun := by simp [t]
  obtain ⟨es, hes⟩ := solo_begun ht hbegun ⟨hun.key, hun.rows⟩ fun key hkey ho => by
    have := hfree key hkey ho
    show 0 < s.free - 1
    omega
  refine ⟨_, .head hadv hes, ?_, rfl, ?_, ?_, ?_⟩
  · show s.free - 1 + 1 = s.free
    omega
  · show Function.update (Function.update s.calls c _) c _ = _
    rw [Function.update_idem]
    rfl
  · refine LockTable.releaseAll_eq_self fun id => ?_
    rw [ne_eq, ht.rowLocks id c]
    simp [hbegun, Phase.rows, Phase.tx?]
  · refine LockTable.releaseAll_eq_self fun key => ?_
    rw [ne_eq, ht.keyLocks key c]
    simp [hbegun, Phase.openKey, Phase.tx?]

end Ecommerce.Orders
