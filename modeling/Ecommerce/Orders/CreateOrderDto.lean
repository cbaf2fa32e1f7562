import Ecommerce.Common.Errors

/-!
# CreateOrderDto — the request body after the validation pipe

`@ValidateNested()` skips a missing `items` and missing elements, takes a single object for the
array and descends into nested arrays, so all of these reach the service.
-/

namespace Ecommerce.Orders

structure OrderItemDto where
  id : String
  qty : Nat
deriving DecidableEq

/-- An element of `items`. -/
inductive ItemValue where
  -- `null` or `undefined`.
  | missing
  -- An array inside the array: it has no `id` and no `qty` of its own.
  | nested
  | item (dto : OrderItemDto)
deriving DecidableEq

/-- The property `items`. -/
inductive ItemsValue where
  -- `null` or `undefined`.
  | missing
  -- A single object, which has no `map`.
  | object
  | array (elems : List ItemValue)
deriving DecidableEq

structure CreateOrderDto where
  items : ItemsValue
deriving DecidableEq

/-- What the service reads of one element: `i.id` and `i.qty`, `none` for `undefined`. -/
structure Line where
  id : Option String
  qty : Option Nat
deriving DecidableEq

/-- Reading a property of `null` or `undefined` throws. -/
def ItemValue.line : ItemValue → Except Failure Line
  | .missing => .error .typeError
  | .nested => .ok { id := none, qty := none }
  | .item dto => .ok { id := some dto.id, qty := some dto.qty }

def ItemValue.lines : List ItemValue → Except Failure (List Line)
  | [] => .ok []
  | v :: vs =>
    match v.line, lines vs with
    | .ok l, .ok ls => .ok (l :: ls)
    | .error e, _ => .error e
    | _, .error e => .error e

/-- `dto.items.map(...)`: a `TypeError` unless `items` is an array without missing elements. -/
def CreateOrderDto.lines (dto : CreateOrderDto) : Except Failure (List Line) :=
  match dto.items with
  | .array elems => ItemValue.lines elems
  | _ => .error .typeError

/-- Only reading a property of what is no object can throw. -/
theorem ItemValue.lines_error {vs : List ItemValue} {e : Failure} (h : ItemValue.lines vs = .error e) :
    e = .typeError := by
  induction vs with
  | nil => cases h
  | cons v vs ih =>
    rw [ItemValue.lines] at h
    cases v with
    | missing =>
      simp only [ItemValue.line, Except.error.injEq] at h
      exact h.symm
    | nested | item _ =>
      simp only [ItemValue.line] at h
      split at h
      · cases h
      · next herr => cases herr
      · next hrest _ =>
        rw [Except.error.injEq] at h
        exact ih (h ▸ hrest)

theorem CreateOrderDto.lines_error {dto : CreateOrderDto} {e : Failure}
    (h : dto.lines = .error e) : e = .typeError := by
  unfold CreateOrderDto.lines at h
  split at h
  · exact ItemValue.lines_error h
  · exact (Except.error.inj h).symm

/-- `new Map(dto.items.map((i) => [i.id, i.qty]))` read at the text of a product id: the last entry
of an id wins, and an id no line has is `undefined`. -/
def qtyOf (lines : List Line) (id : UUID) : Option Nat :=
  (lines.reverse.find? (·.id = some id.text)).bind (·.qty)

/-- The ids as query parameters.  `undefined` is sent as NULL and matches no row; every other text
must be a `uuid`; an empty list makes the statement `IN ()`. -/
def idParams (lines : List Line) : Except Failure (List UUID) :=
  if lines.isEmpty then .error (.query .syntaxError)
  else
    match (lines.filterMap (·.id)).mapM UUID.ofText with
    | some ids => .ok ids
    | none => .error (.query .invalidText)

end Ecommerce.Orders
