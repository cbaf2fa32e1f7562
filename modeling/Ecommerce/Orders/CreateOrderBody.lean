import Ecommerce.Common.HttpExceptionFilter
import Ecommerce.Orders.Decision

/-!
# CreateOrderBody — the bodies the validation pipe accepts for an order

The pipe checks `items` as a nested value: it skips `null` and `undefined`, takes an object for an
item, and goes into arrays at any depth.
-/

namespace Ecommerce.Orders

/-- `@IsUUID()`, `@IsInt()` and `@Min(1)` on an object. -/
def OrderItemDto.ofJson (v : Json) : Option OrderItemDto :=
  match v.get? "id", v.get? "qty" with
  | some (.str id), some (.num (.finite qty)) =>
    if UUID.isUUID id ∧ qty.den = 1 ∧ 1 ≤ qty then some { id, qty := qty.num.toNat } else none
  | _, _ => none

mutual

/-- Whether the pipe accepts a value inside the array `items`.  `ValidateNested` is assumed to skip
`null`, here and for `items` itself. -/
def acceptsNested : Json → Bool
  | .null => true
  | .arr elems => acceptsAll elems
  | .obj fields => (OrderItemDto.ofJson (.obj fields)).isSome
  | _ => false

def acceptsAll : List Json → Bool
  | [] => true
  | v :: vs => acceptsNested v && acceptsAll vs

end

/-- An accepted element as the service sees it. -/
def ItemValue.ofJson (v : Json) : Option ItemValue :=
  match v with
  | .null => some .missing
  | .arr elems => if acceptsAll elems then some .nested else none
  | .obj fields => (OrderItemDto.ofJson (.obj fields)).map .item
  | _ => none

/-- The property `items`; `none` when the pipe refuses it. -/
def ItemsValue.ofJson : Option Json → Option ItemsValue
  | none => some .missing
  | some .null => some .missing
  | some (.arr elems) => (elems.mapM ItemValue.ofJson).map .array
  | some (.obj fields) => (OrderItemDto.ofJson (.obj fields)).map fun _ => .object
  | some _ => none

/-- The global `ValidationPipe` on the body of `POST /orders`.  A body that is no object has no
`items`, and the pipe asks for none. -/
def CreateOrderDto.ofJson (body : Json) : Option CreateOrderDto :=
  (ItemsValue.ofJson (body.get? "items")).map fun items => { items }

/-! ## What is known of an accepted body -/

theorem OrderItemDto.ofJson_accepted {v : Json} {dto : OrderItemDto}
    (h : OrderItemDto.ofJson v = some dto) : dto.accepted = true := by
  unfold OrderItemDto.ofJson at h
  split at h
  · rename_i id qty _ _
    split at h
    · next hchecks =>
      obtain ⟨huuid, hint, hmin⟩ := hchecks
      have hqty : (1 : ℚ) ≤ (qty.num : ℚ) := by
        rwa [(Rat.den_eq_one_iff qty).mp hint]
      have hnum : 1 ≤ qty.num := by exact_mod_cast hqty
      rw [← Option.some.inj h, OrderItemDto.accepted, Bool.and_eq_true]
      refine ⟨huuid, decide_eq_true ?_⟩
      show 1 ≤ qty.num.toNat
      omega
    · cases h
  · cases h

theorem ItemValue.ofJson_accepted {v : Json} {i : OrderItemDto}
    (h : ItemValue.ofJson v = some (.item i)) : i.accepted = true := by
  unfold ItemValue.ofJson at h
  split at h
  · cases h
  · split at h
    · cases h
    · cases h
  · obtain ⟨dto, hdto, heq⟩ := Option.map_eq_some_iff.mp h
    rw [← ItemValue.item.inj heq]
    exact OrderItemDto.ofJson_accepted hdto
  · cases h

-- Where all elements of a list are read, each result is read from one of them.
theorem mem_of_mapM {α β : Type} {f : α → Option β} {xs : List α} {ys : List β}
    (h : xs.mapM f = some ys) {y : β} (hy : y ∈ ys) : ∃ x ∈ xs, f x = some y := by
  induction xs generalizing ys with
  | nil =>
    cases h
    cases hy
  | cons x xs ih =>
    rw [List.mapM_cons] at h
    obtain ⟨y', hx, ys', hxs, hcons⟩ : ∃ y', f x = some y' ∧ ∃ ys', xs.mapM f = some ys' ∧
        some (y' :: ys') = some ys := by
      simpa only [Option.bind_eq_bind, Option.bind_eq_some_iff, Option.pure_def] using h
    rw [← Option.some.inj hcons] at hy
    rcases List.mem_cons.mp hy with rfl | hrest
    · exact ⟨x, List.mem_cons_self, hx⟩
    · obtain ⟨x', hx', hread⟩ := ih hxs hrest
      exact ⟨x', List.mem_cons_of_mem _ hx', hread⟩

/-- Every object in an accepted array passed the checks of an item. -/
theorem CreateOrderDto.ofJson_accepted {body : Json} {dto : CreateOrderDto} {elems : List ItemValue}
    (h : CreateOrderDto.ofJson body = some dto) (hitems : dto.items = .array elems) :
    ∀ i, .item i ∈ elems → i.accepted = true := by
  obtain ⟨items, hread, rfl⟩ := Option.map_eq_some_iff.mp h
  obtain rfl : items = .array elems := hitems
  unfold ItemsValue.ofJson at hread
  split at hread
  · cases hread
  · cases hread
  · obtain ⟨elems', hmap, heq⟩ := Option.map_eq_some_iff.mp hread
    obtain rfl := ItemsValue.array.inj heq
    intro i hi
    obtain ⟨v, -, hv⟩ := mem_of_mapM hmap hi
    exact ItemValue.ofJson_accepted hv
  · obtain ⟨dto, -, heq⟩ := Option.map_eq_some_iff.mp hread
    cases heq
  · cases hread

end Ecommerce.Orders
