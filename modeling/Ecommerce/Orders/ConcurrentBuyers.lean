import Ecommerce.Orders.Decision
import Ecommerce.Orders.Serializability

/-!
# ConcurrentBuyers — many calls for the pieces of one product

Any number of calls order the same quantity of one product at the same time, each under a key of its
own, and nothing fails.  However they interleave, as many orders are created as the stock allows,
and every other call is refused with what is left.
-/

namespace Ecommerce.Orders

open Locking Transition

/-! ## One buyer -/

section Single

variable {req : Request} (ch : Choices) {db : Db} {p : Product} {qty : Nat} {pair : UUID × UUID}

theorem findByIds_single (hv : (db.products.map (·.id)).Nodup) (hp : p ∈ db.products) :
    findByIds ch db [p.id] = [p] := by
  have hids : (db.matchingIds [p.id]).Perm [p.id] := by
    apply (List.perm_ext_iff_of_nodup (Db.matchingIds_nodup hv _) (List.nodup_singleton _)).mpr
    intro id
    rw [Db.mem_matchingIds, List.mem_singleton]
    exact ⟨fun h => h.1, fun h => ⟨h, p, hp, h.symm⟩⟩
  have hscan : ch.scan (db.matchingIds [p.id]) = [p.id] :=
    List.perm_singleton.mp ((ch.scan_perm _).trans hids)
  rw [findByIds, hscan, List.filterMap_cons_some (Db.product?_of_mem hv hp), List.filterMap_nil]

/-- What `createOrder` makes of a new order of one product. -/
theorem createOrder_single (hdto : req.dto = .ofItems [{ id := p.id.text, qty }])
    (hpair : req.pair = some pair) (hnew : db.orderByKey pair = none)
    (hv : (db.products.map (·.id)).Nodup) (hp : p ∈ db.products) :
    (p.stock < qty → createOrder req ch db =
      (db, .rejected (.domain (.notEnoughItemsInStock p.id qty p.stock)))) ∧
    (qty ≤ p.stock → ∃ tx v, createOrder req ch db = (db.apply tx, .created v) ∧
      tx.order.key = pair ∧ tx.stocks = [(p.id, p.stock - qty)]) := by
  obtain ⟨key, hkey, rfl⟩ := Option.map_eq_some_iff.mp hpair
  have hlines : req.dto.lines = .ok [⟨some p.id.text, some qty⟩] := by
    rw [hdto]
    rfl
  have hids : req.ids = .ok [p.id] := by
    simp [Request.ids, hlines, idParams, UUID.ofText_text]
  have hqty : qtyOf [⟨some p.id.text, some qty⟩] p.id = some qty := by simp [qtyOf]
  have hcall : createOrder req ch db =
      txOutcome db (fillRows req ch db (newOrder req ch key) [p]) := by
    simp only [createOrder, hkey, hnew, fillOrder, hids, bind, Except.bind,
      findByIds_single ch hv hp]
  have hcheck : req.check ch.newId [p] =
      fillItems [⟨some p.id.text, some qty⟩] ch.newId [p] := by
    simp [Request.check, hlines, checkProducts]
  constructor
  · intro hshort
    have hloop : req.check ch.newId [p] =
        .error (.domain (.notEnoughItemsInStock p.id qty p.stock)) := by
      rw [hcheck]
      simp [fillItems, hqty, hshort]
    rw [hcall]
    simp only [fillRows, newOrder, hloop, bind, Except.bind, txOutcome]
  · intro henough
    have hloop : req.check ch.newId [p] =
        .ok ([⟨ch.newId, p.id, some qty, p.price⟩], [⟨p.id, some (p.stock - qty)⟩]) := by
      rw [hcheck]
      simp [fillItems, hqty, henough]
    let tx : Tx := {
      order := newOrder req ch key, rows := [p], items := [⟨ch.newId, p.id, qty, p.price⟩]
      stocks := [(p.id, p.stock - qty)] }
    obtain ⟨v, hv⟩ := findOne_apply ch db tx
    refine ⟨tx, v, ?_, rfl, rfl⟩
    have hfind : findOne ch (db.apply tx) (newOrder req ch key).id = some v := hv
    have hfill : fillRows req ch db (newOrder req ch key) [p] = .ok (tx, v) := by
      unfold fillRows
      rw [show req.check (newOrder req ch key).id [p] = _ from hloop]
      simp only [bind, Except.bind, saveItems, saveProducts]
      split
      · next result hresult =>
        cases hresult.symm.trans hfind
        rfl
      · next hnone => cases hnone.symm.trans hfind
    rw [hcall, hfill]
    rfl

end Single

/-! ## All buyers -/

variable {ι : Type} [DecidableEq ι] {env : Env ι} {db₀ : Db} {n : Nat} {id : UUID} {qty k : Nat}

/-- Every call orders `qty` pieces of the product, under a new key of its own. -/
structure Buyers (env : Env ι) (db₀ : Db) (id : UUID) (qty : Nat) : Prop where
  positive : 0 < qty
  dto : ∀ c, (env.request c).dto = .ofItems [{ id := id.text, qty }]
  pair : ∀ c, ∃ pair, (env.request c).pair = some pair ∧ ¬ Known db₀ pair
  distinct : ∀ c d, (env.request c).pair = (env.request d).pair → c = d

/-- The steps of calls and workers, where nothing fails. -/
def nothingFails (_ : Sys ι) : Label ι → Prop
  | .advance _ => True
  | .worker => True
  | _ => False

/-- The call has created its order. -/
def Phase.bought (ph : Phase) : Bool :=
  match ph.decided with
  | some (.created _) => true
  | _ => false

theorem Phase.bought_iff {ph : Phase} : ph.bought = true ↔ ∃ v, ph.decided = some (.created v) := by
  unfold Phase.bought
  split
  · next v hv => exact iff_of_true rfl ⟨v, hv⟩
  · next hne => exact iff_of_false Bool.false_ne_true fun ⟨v, hv⟩ => hne v hv

theorem Phase.not_bought {ph : Phase} (h : ph.decided = none) : ph.bought = false := by
  unfold Phase.bought
  rw [h]

/-- The number of calls that have created their orders. -/
def Sys.buyers [Fintype ι] (s : Sys ι) : Nat :=
  (Finset.univ.filter fun c => (s.calls c).bought = true).card

section Step

variable [Fintype ι] {s s' : Sys ι} {c : ι}

omit [DecidableEq ι] in
theorem buyers_of_same (h : ∀ d, (s'.calls d).bought = (s.calls d).bought) :
    s'.buyers = s.buyers := by
  unfold Sys.buyers
  simp only [h]

theorem buyers_succ (hothers : ∀ d, d ≠ c → s'.calls d = s.calls d)
    (hbefore : (s.calls c).bought = false) (hafter : (s'.calls c).bought = true) :
    s'.buyers = s.buyers + 1 := by
  have hinsert : (Finset.univ.filter fun d => (s'.calls d).bought = true) =
      insert c (Finset.univ.filter fun d => (s.calls d).bought = true) := by
    ext d
    rw [Finset.mem_insert, Finset.mem_filter, Finset.mem_filter]
    by_cases hd : d = c
    · subst hd
      simp [hafter]
    · simp [hd, hothers d hd]
  unfold Sys.buyers
  rw [hinsert, Finset.card_insert_of_notMem]
  simp [hbefore]

/-- What is left of the product; who has been refused has been told. -/
structure Left (id : UUID) (qty k : Nat) (s : Sys ι) (p : Product) : Prop where
  mem : p ∈ s.db.products
  named : p.id = id
  nonneg : 0 ≤ p.stock
  total : p.stock + ((qty * s.buyers : Nat) : Int) = k
  refused : ∀ c e, (s.calls c).decided = some (.rejected e) →
    e = .domain (.notEnoughItemsInStock id qty p.stock) ∧ p.stock < qty

/-- The law of all buyers. -/
structure Shared (env : Env ι) (id : UUID) (qty k : Nat) (s : Sys ι) : Prop where
  stock : ∃ p, Left id qty k s p
  known : ∀ c pair, (env.request c).pair = some pair → Known s.db pair →
    (s.calls c).bought = true
  decided : ∀ c outcome, (s.calls c).decided = some outcome →
    (s.calls c).bought = true ∨ ∃ e, outcome = .rejected e

omit [DecidableEq ι] in
/-- Steps that decide nothing keep it. -/
theorem Shared.of_same (h : Shared env id qty k s)
    (hdecided : ∀ d, (s'.calls d).decided = (s.calls d).decided)
    (hproducts : s'.db.products = s.db.products)
    (hknown : ∀ pair, Known s'.db pair → Known s.db pair) : Shared env id qty k s' := by
  have hbought : ∀ d, (s'.calls d).bought = (s.calls d).bought := fun d => by
    unfold Phase.bought
    rw [hdecided d]
  obtain ⟨p, hp⟩ := h.stock
  refine ⟨⟨p, ?_⟩, fun c pair hpair hk => ?_, fun c outcome hc => ?_⟩
  · exact {
      mem := by rw [hproducts]; exact hp.mem
      named := hp.named
      nonneg := hp.nonneg
      total := by rw [buyers_of_same hbought]; exact hp.total
      refused := fun c e hc => hp.refused c e (by rwa [hdecided] at hc) }
  · rw [hbought]
    exact h.known c pair hpair (hknown pair hk)
  · rw [hdecided] at hc
    rw [hbought]
    exact h.decided c outcome hc

omit [DecidableEq ι] in
theorem Shared.initial (hb : Buyers env db₀ id qty) {p : Product} (hp : p ∈ db₀.products)
    (hid : p.id = id) (hk : p.stock = k) : Shared env id qty k (.initial n db₀) := by
  have hnone : ∀ c, ((Sys.initial n db₀ : Sys ι).calls c).decided = none := fun _ => rfl
  have hzero : (Sys.initial n db₀ : Sys ι).buyers = 0 := by
    unfold Sys.buyers
    simp [Phase.not_bought (hnone _)]
  refine ⟨⟨p, hp, hid, by omega, ?_, fun c e hc => ?_⟩, fun c pair hpair hknown => ?_,
    fun c outcome hc => ?_⟩
  · rw [hzero]
    omega
  · rw [hnone] at hc
    cases hc
  · obtain ⟨pair', hpair', hnew⟩ := hb.pair c
    rw [hpair] at hpair'
    cases hpair'
    exact absurd hknown hnew
  · rw [hnone] at hc
    cases hc

/-- A call that is refused changes nothing. -/
theorem Left.refuse {p : Product} (h : Left id qty k s p)
    (hothers : ∀ d, d ≠ c → s'.calls d = s.calls d) (hbefore : (s.calls c).bought = false)
    (hdecided : (s'.calls c).decided =
      some (.rejected (.domain (.notEnoughItemsInStock id qty p.stock))))
    (hshort : p.stock < qty) (hdb : s'.db = s.db) : Left id qty k s' p where
  mem := by rw [hdb]; exact h.mem
  named := h.named
  nonneg := h.nonneg
  total := by
    have hbought : ∀ d, (s'.calls d).bought = (s.calls d).bought := fun d => by
      by_cases hd : d = c
      · rw [hd, hbefore]
        unfold Phase.bought
        rw [hdecided]
      · rw [hothers d hd]
    rw [buyers_of_same hbought]
    exact h.total
  refused d e hd := by
    by_cases hdc : d = c
    · rw [hdc, hdecided] at hd
      cases hd
      exact ⟨rfl, hshort⟩
    · rw [hothers d hdc] at hd
      exact h.refused d e hd

/-- A call that buys found enough, so nobody had been refused. -/
theorem Left.buy {p : Product} {tx : Tx} (h : Left id qty k s p)
    (hothers : ∀ d, d ≠ c → s'.calls d = s.calls d) (hbefore : (s.calls c).bought = false)
    (hafter : (s'.calls c).bought = true) (henough : (qty : Int) ≤ p.stock)
    (hstocks : tx.stocks = [(p.id, p.stock - qty)]) (hdb : s'.db = s.db.apply tx) :
    Left id qty k s' (tx.newStock p) := by
  have hleft : (tx.newStock p).stock = p.stock - qty := by
    unfold Tx.newStock
    rw [hstocks, List.lookup_cons_self]
  constructor
  · rw [hdb]
    exact List.mem_map_of_mem h.mem
  · rw [Db.newStock_id, h.named]
  · omega
  · have htotal := h.total
    rw [hleft, buyers_succ hothers hbefore hafter, Nat.mul_succ, Nat.cast_add]
    omega
  · intro d e hd
    by_cases hdc : d = c
    · obtain ⟨v, hv⟩ := Phase.bought_iff.mp hafter
      rw [hdc, hv] at hd
      cases hd
    · rw [hothers d hdc] at hd
      have hshort := (h.refused d e hd).2
      omega

/-- One call decides. -/
theorem Shared.deciding (h : Shared env id qty k s) (hb : Buyers env db₀ id qty)
    (hi : Inv env db₀ s) (hothers : ∀ d, d ≠ c → s'.calls d = s.calls d)
    (hnone : (s.calls c).decided = none)
    (hdecided : (s'.calls c).decided = some (env.outcome c s.db).2)
    (hdb : s'.db = (env.outcome c s.db).1) : Shared env id qty k s' := by
  obtain ⟨p, hp⟩ := h.stock
  have hid := hp.named
  subst hid
  obtain ⟨pair, hpair, -⟩ := hb.pair c
  have hbefore := Phase.not_bought hnone
  have hnew : s.db.orderByKey pair = none := by
    by_contra hne
    rw [h.known c pair hpair (known_iff.mpr hne)] at hbefore
    cases hbefore
  obtain ⟨hshort, henough⟩ := createOrder_single (env.choices c) (hb.dto c) hpair hnew
    hi.valid.productIds hp.mem
  have hstill : ∀ d, (s.calls d).bought = true → (s'.calls d).bought = true := fun d hd => by
    have hdc : d ≠ c := fun heq => by
      rw [heq, hbefore] at hd
      cases hd
    rwa [hothers d hdc]
  by_cases hstock : p.stock < qty
  · rw [show env.outcome c s.db = _ from hshort hstock] at hdecided hdb
    refine ⟨⟨p, hp.refuse hothers hbefore hdecided hstock hdb⟩, fun d pair' hd hknown => ?_,
      fun d outcome hd => ?_⟩
    · rw [hdb] at hknown
      exact hstill d (h.known d pair' hd hknown)
    · by_cases hdc : d = c
      · rw [hdc, hdecided] at hd
        cases hd
        exact .inr ⟨_, rfl⟩
      · rw [hothers d hdc] at hd ⊢
        exact h.decided d outcome hd
  · obtain ⟨tx, v, houtcome, hkey, hstocks⟩ := henough (by omega)
    rw [show env.outcome c s.db = _ from houtcome] at hdecided hdb
    have hafter : (s'.calls c).bought = true := Phase.bought_iff.mpr ⟨v, hdecided⟩
    refine ⟨⟨_, hp.buy hothers hbefore hafter (by omega) hstocks hdb⟩, fun d pair' hd hknown => ?_,
      fun d outcome hd => ?_⟩
    · -- the new order is that of the call, whose key nobody else has
      obtain ⟨o, ho, hokey⟩ := hknown
      rw [hdb] at ho
      rcases List.mem_append.mp ho with hold | horder
      · exact hstill d (h.known d pair' hd ⟨o, hold, hokey⟩)
      · rw [List.mem_singleton.mp horder, hkey] at hokey
        have hdc : d = c := hb.distinct d c (by rw [hd, hpair, hokey])
        rw [hdc]
        exact hafter
    · by_cases hdc : d = c
      · rw [hdc]
        exact .inl hafter
      · rw [hothers d hdc] at hd ⊢
        exact h.decided d outcome hd

theorem Shared.step {l : Label ι} (h : Shared env id qty k s) (hb : Buyers env db₀ id qty)
    (hi : Inv env db₀ s) (hres : Results env s) (hf : FreshIds env db₀) (hok : nothingFails s l)
    (hs : Step env s l s') : Shared env id qty k s' := by
  cases hs with
  | advance c hadv =>
    have hcases := advance_cases hadv
    obtain ⟨hsame, hdb⟩ | ⟨hnone, hdecided, hdb, -, -⟩ := hcases.decides hi hres hf
    · refine h.of_same (fun d => ?_) (by rw [hdb]) fun pair hk => by rwa [hdb] at hk
      by_cases hd : d = c
      · rw [hd]
        exact hsame
      · rw [hcases.others d hd]
    · exact h.deciding hb hi hcases.others hnone hdecided hdb
  | worker db hw =>
    refine h.of_same (fun d => rfl) hw.products fun pair hk => ?_
    obtain ⟨f, horders, hkept⟩ := hw.orders
    obtain ⟨o, ho, hkey⟩ := hk
    rw [show ({ s with db } : Sys ι).db.orders = _ from horders] at ho
    obtain ⟨o', ho', rfl⟩ := List.mem_map.mp ho
    exact ⟨o', ho', (hkept o').2.1.symm.trans hkey⟩
  | _ => cases hok

end Step

/-! ## Every run in which nothing fails -/

section Run

variable [Fintype ι] {s : Sys ι}

theorem shared_reach (hv : db₀.Valid) (hf : FreshIds env db₀) (hb : Buyers env db₀ id qty)
    {p : Product} (hp : p ∈ db₀.products) (hid : p.id = id) (hk : p.stock = k)
    (hr : (system env n db₀).Reach nothingFails s) : Shared env id qty k s :=
  hr.invariant (fun s h0 => by rw [h0]; exact .initial hb hp hid hk) fun s l s' hr h hok hs =>
    h.step hb (Reachable.inv hr.any hv hf) (Reachable.results hr.any hv hf) hf hok hs

omit [DecidableEq ι] in
/-- Each call has bought, or there was too little left for it. -/
theorem Shared.buyers_eq (h : Shared env id qty k s) (hb : Buyers env db₀ id qty)
    (hdone : ∀ c, (s.calls c).isDone = true) : s.buyers = min (Fintype.card ι) (k / qty) := by
  obtain ⟨p, -, -, hpos, hsum, hrefused⟩ := h.stock
  have hcalls : s.buyers ≤ Fintype.card ι := Finset.card_le_univ _
  have hpieces : s.buyers ≤ k / qty := by
    apply (Nat.le_div_iff_mul_le hb.positive).mpr
    rw [Nat.mul_comm]
    omega
  by_cases hall : ∀ c, (s.calls c).bought = true
  · have hevery : s.buyers = Fintype.card ι := by
      unfold Sys.buyers
      simp [hall]
    omega
  · push Not at hall
    obtain ⟨c, hc⟩ := hall
    obtain ⟨outcome, houtcome⟩ := Phase.isDone_iff.mp (hdone c)
    have hdecided : (s.calls c).decided = some outcome := by
      rw [houtcome]
      rfl
    obtain hbought | ⟨e, rfl⟩ := h.decided c outcome hdecided
    · exact absurd hbought hc
    · -- what is left is less than the next one asks for
      have hshort := (hrefused c e hdecided).2
      have hlt : k / qty < s.buyers + 1 := by
        apply (Nat.div_lt_iff_lt_mul hb.positive).mpr
        rw [Nat.mul_comm, Nat.mul_succ]
        omega
      omega

/-- When calls that nothing has failed in have all answered, however they were interleaved, as many
orders have been created as there are calls or as the stock allows, and every other call has been
told the stock that is left in the end. -/
theorem buyers_share_stock (hv : db₀.Valid) (hf : FreshIds env db₀) (hb : Buyers env db₀ id qty)
    {p : Product} (hp : p ∈ db₀.products) (hid : p.id = id) (hk : p.stock = k)
    (hr : (system env n db₀).Reach nothingFails s) (hdone : ∀ c, (s.calls c).isDone = true) :
    s.buyers = min (Fintype.card ι) (k / qty) ∧
      ∃ p' ∈ s.db.products, p'.id = id ∧
        p'.stock = (k - qty * min (Fintype.card ι) (k / qty) : Nat) ∧
        ∀ c, (∃ v, s.calls c = .done (.created v)) ∨
          s.calls c = .done (.rejected (.domain (.notEnoughItemsInStock id qty p'.stock))) := by
  have h := shared_reach hv hf hb hp hid hk hr
  have hbuyers := h.buyers_eq hb hdone
  obtain ⟨p', hp', hid', hpos, hsum, hrefused⟩ := h.stock
  rw [hbuyers] at hsum
  refine ⟨hbuyers, p', hp', hid', by omega, fun c => ?_⟩
  obtain ⟨outcome, houtcome⟩ := Phase.isDone_iff.mp (hdone c)
  have hdecided : (s.calls c).decided = some outcome := by
    rw [houtcome]
    rfl
  obtain hbought | ⟨e, rfl⟩ := h.decided c outcome hdecided
  · obtain ⟨v, hv⟩ := Phase.bought_iff.mp hbought
    rw [hdecided] at hv
    cases hv
    exact .inl ⟨v, houtcome⟩
  · rw [houtcome, (hrefused c e hdecided).1]
    exact .inr rfl

end Run

/-! ## Two calls for three of five pieces each -/

def threePieces (c : Fin 2) : Request where
  userId := .ofNat 50
  dto := .ofItems [{ id := (UUID.ofNat 1).text, qty := 3 }]
  idempotencyKey := (UUID.ofNat (60 + c)).text

theorem threePieces_buyers :
    Buyers (shopEnv (fun _ => false) threePieces) shop (.ofNat 1) 3 where
  positive := by decide
  dto _ := rfl
  pair c := by
    refine ⟨(.ofNat 50, .ofNat (60 + c)), ?_, fun ⟨o, ho, _⟩ => nomatch ho⟩
    show (UUID.ofText (UUID.ofNat (60 + c)).text).map _ = _
    rw [UUID.ofText_text]
    rfl
  distinct := by
    show ∀ c d : Fin 2, (threePieces c).pair = (threePieces d).pair → c = d
    decide +kernel

/-- One of them buys, and the other one is told that two are left. -/
theorem buyers_share_stock_two : ∃ s : Sys (Fin 2), s.buyers = 1 ∧
    ∃ p ∈ s.db.products, p.id = .ofNat 1 ∧ p.stock = 2 ∧
      ∀ c, (∃ v, s.calls c = .done (.created v)) ∨
        s.calls c = .done (.rejected (.domain (.notEnoughItemsInStock (.ofNat 1) 3 p.stock))) := by
  let bothDone : Sys (Fin 2) → Bool := fun s => (s.calls 0).isDone && (s.calls 1).isDone
  -- both transactions are open at once, until one has the row
  obtain ⟨s, hr, hs⟩ := reach_of_run (shopEnv (fun _ => false) threePieces) 2 shop
    ([0, 1, 0, 1] ++ List.replicate 9 0 ++ List.replicate 4 1) (p := bothDone) (by decide +kernel)
  simp only [bothDone, Bool.and_eq_true] at hs
  have hdone : ∀ c, (s.calls c).isDone = true := fun c => by
    match c with
    | 0 => exact hs.1
    | 1 => exact hs.2
  have hown : (system (shopEnv (fun _ => false) threePieces) 2 shop).Reach nothingFails s :=
    hr.mono fun _ _ ⟨c, hc⟩ => by rw [hc]; trivial
  obtain ⟨hbuyers, p, hp, hid, hstock, hcalls⟩ := buyers_share_stock (k := 5)
    (by decide) (freshIds_shop _ _) threePieces_buyers (p := ⟨.ofNat 1, 5, "10.00"⟩) (by decide) rfl
    rfl hown hdone
  exact ⟨s, by simpa using hbuyers, p, hp, hid, by simpa using hstock, hcalls⟩

end Ecommerce.Orders
