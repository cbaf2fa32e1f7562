import Ecommerce.Common.Json

/-!
# Coercion — what JavaScript makes of values nobody has checked

Template literals, `>=`, `+`, spread and the way through `JSON.stringify` and back, on values that
`JSON.parse` may give.  The conversions between numbers and texts are parameters.
-/

namespace Ecommerce

/-! ## Texts and numbers of values -/

/-- The conversions of the language between numbers and texts. -/
structure Conversions where
  -- `Number(text)`
  toNumber : String → Number
  -- `String(number)`
  numberText : Number → String

variable (c : Conversions)

namespace Json

mutual

/-- `String(value)`; `none` for a `TypeError`.  An own property `toString` of an object hides the
inherited function, and nothing that was parsed is a function. -/
def text? : Json → Option String
  | .null => some "null"
  | .bool b => some (if b then "true" else "false")
  | .num n => some (c.numberText n)
  | .str s => some s
  | .arr elems => (texts? elems).map (",".intercalate ·)
  | .obj fields => if (fields.lookup "toString").isSome then none else some "[object Object]"

/-- The elements of an array, as `join` takes them. -/
def texts? : List Json → Option (List String)
  | [] => some []
  | .null :: vs => (texts? vs).map ("" :: ·)
  | v :: vs => do
    let t ← text? v
    let ts ← texts? vs
    return t :: ts

end

/-- A value in a template literal; `none` for a `TypeError`. -/
def printed? : Option Json → Option String
  | none => some "undefined"
  | some v => text? c v

/-- The number a value counts as in a comparison; `none` for a `TypeError`. -/
def number? : Option Json → Option Number
  | none => some .nan
  | some .null => some (.ofInt 0)
  | some (.bool b) => some (.ofInt (if b then 1 else 0))
  | some (.num n) => some n
  | some v => (text? c v).map c.toNumber

/-- `value >= n`; `none` for a `TypeError`. -/
def ge? (v : Option Json) (n : Number) : Option Bool := (number? c v).map (·.ge n)

/-- `value + n`; `none` for a `TypeError`.  Texts, arrays and objects are lengthened. -/
def plus? (v : Option Json) (n : Number) : Option Json :=
  match v with
  | some (.str s) => some (.str (s ++ c.numberText n))
  | some (.arr elems) => (text? c (.arr elems)).map fun t => .str (t ++ c.numberText n)
  | some (.obj fields) => (text? c (.obj fields)).map fun t => .str (t ++ c.numberText n)
  | v => (number? c v).map fun k => .num (k.plus n)

/-! ## Objects -/

/-- The escape `\uXXXX` of a UTF-16 unit from 0x1000 on. -/
def unitEscape (unit : Nat) : String := "\\u" ++ .ofList (Nat.toDigits 16 unit)

/-- The UTF-16 units of a character.  Half of a surrogate pair alone is no `String`; its escape stands
for it, which is also what `JSON.stringify` writes. -/
def utf16Units (ch : Char) : List String :=
  if ch.toNat < 0x10000 then [.singleton ch]
  else [unitEscape (0xd800 + (ch.toNat - 0x10000) / 0x400),
    unitEscape (0xdc00 + (ch.toNat - 0x10000) % 0x400)]

/-- The own properties of a value, as `...value` copies them. -/
def spread : Json → List (String × Json)
  | .obj fields => fields
  | .arr elems => elems.mapIdx fun i v => (toString i, v)
  | .str s => (s.toList.flatMap utf16Units).mapIdx fun i unit => (toString i, .str unit)
  | _ => []

/-- `{ ...value, [key]: x }`. -/
def withField (v : Json) (key : String) (x : Json) : Json :=
  if (v.spread.lookup key).isSome then
    .obj (v.spread.map fun f => if f.1 = key then (key, x) else f)
  else .obj (v.spread ++ [(key, x)])

mutual

/-- What `JSON.parse` makes of the text `JSON.stringify` gives. -/
def written : Json → Json
  | .num (.finite q) => .num (.finite q)
  | .num _ => .null
  | .arr elems => .arr (writtenElems elems)
  | .obj fields => .obj (writtenFields fields)
  | v => v

def writtenElems : List Json → List Json
  | [] => []
  | v :: vs => written v :: writtenElems vs

def writtenFields : List (String × Json) → List (String × Json)
  | [] => []
  | (key, v) :: fields => (key, written v) :: writtenFields fields

end

/-! ### Their properties -/

variable {v x : Json} {key key' : String}

-- A name that is no number is not the name of an element.
theorem lookup_mapIdx {α : Type} (f : α → Json) (l : List α) (h : ∀ i : Nat, toString i ≠ key) :
    (l.mapIdx fun i a => (toString i, f a)).lookup key = none := by
  rw [List.lookup_eq_none_iff]
  intro entry hmem
  obtain ⟨i, hi, rfl⟩ := List.mem_mapIdx.mp hmem
  simpa using (h i).symm

theorem toString_ne_of_not_digit (ch : Char) (hmem : ch ∈ key.toList) (hch : ch.isDigit = false)
    (i : Nat) : toString i ≠ key := by
  rintro rfl
  have hdigits : (toString i).toList = Nat.toDigits 10 i := by
    simp [toString, Nat.repr]
  rw [hdigits] at hmem
  rw [Nat.isDigit_of_mem_toDigits (by decide) (by decide) hmem] at hch
  cases hch

theorem lookup_spread (v : Json) (h : ∀ i : Nat, toString i ≠ key) :
    v.spread.lookup key = v.get? key := by
  cases v with
  | arr elems => exact lookup_mapIdx id elems h
  | str s => exact lookup_mapIdx .str (s.toList.flatMap utf16Units) h
  | _ => rfl

theorem lookup_map_self {fields : List (String × Json)} (h : (fields.lookup key).isSome = true) :
    (fields.map fun f => if f.1 = key then (key, x) else f).lookup key = some x := by
  induction fields with
  | nil => cases h
  | cons f fields ih =>
    by_cases hf : f.1 = key
    · simp [hf]
    · have hkey : (key == f.1) = false := by simpa using Ne.symm hf
      rw [List.lookup_cons, hkey] at h
      rw [List.map_cons, if_neg hf, List.lookup_cons, hkey]
      exact ih h

theorem lookup_map_of_ne {fields : List (String × Json)} (hne : key' ≠ key) :
    (fields.map fun f => if f.1 = key then (key, x) else f).lookup key' =
      fields.lookup key' := by
  induction fields with
  | nil => rfl
  | cons f fields ih =>
    by_cases hf : f.1 = key
    · have hkey : (key' == key) = false := by simpa using hne
      rw [List.map_cons, if_pos hf, List.lookup_cons, List.lookup_cons, hf, hkey]
      exact ih
    · rw [List.map_cons, if_neg hf, List.lookup_cons, List.lookup_cons, ih]

theorem get?_withField_self (v : Json) (key : String) (x : Json) :
    (v.withField key x).get? key = some x := by
  unfold withField
  split
  · next h => exact lookup_map_self h
  · next h =>
    show (v.spread ++ [(key, x)]).lookup key = some x
    rw [List.lookup_append, Option.not_isSome_iff_eq_none.mp h]
    simp

theorem get?_withField_of_ne (v : Json) (x : Json) (hne : key' ≠ key)
    (h : ∀ i : Nat, toString i ≠ key') : (v.withField key x).get? key' = v.get? key' := by
  rw [← lookup_spread v h]
  unfold withField
  split
  · exact lookup_map_of_ne hne
  · show (v.spread ++ [(key, x)]).lookup key' = v.spread.lookup key'
    have hkey : (key' == key) = false := by simpa using hne
    rw [List.lookup_append, List.lookup_cons, hkey]
    simp

theorem lookup_writtenFields (fields : List (String × Json)) :
    (writtenFields fields).lookup key = (fields.lookup key).map written := by
  induction fields with
  | nil => rfl
  | cons f fields ih =>
    rw [writtenFields, List.lookup_cons, List.lookup_cons]
    split
    · rfl
    · exact ih

theorem get?_written (v : Json) : v.written.get? key = (v.get? key).map written := by
  cases v with
  | obj fields => exact lookup_writtenFields fields
  | num n => cases n <;> rfl
  | _ => rfl

variable {c}

/-- What a template literal takes, a comparison takes too. -/
theorem number?_of_printed {a : Option Json} (h : (printed? c a).isSome = true) :
    ∃ n, number? c a = some n := by
  rw [← Option.isSome_iff_exists]
  match a with
  | none => rfl
  | some .null => rfl
  | some (.bool b) => rfl
  | some (.num n) => rfl
  | some (.str s) => rfl
  | some (.arr elems) => simpa [number?, printed?] using h
  | some (.obj fields) => simpa [number?, printed?] using h

/-- A sum is a number or a text, and can be taken for one again when it has been written. -/
theorem plus?_of_printed {a : Option Json} (n : Number) (h : (printed? c a).isSome = true) :
    ∃ x, plus? c a n = some x ∧ (printed? c (some x.written)).isSome = true := by
  have hnum (k : Number) : (printed? c (some (Json.num k).written)).isSome = true := by
    cases k <;> rfl
  match a with
  | none => exact ⟨_, rfl, hnum _⟩
  | some .null => exact ⟨_, rfl, hnum _⟩
  | some (.bool b) => exact ⟨_, rfl, hnum _⟩
  | some (.num k) => exact ⟨_, rfl, hnum _⟩
  | some (.str s) => exact ⟨_, rfl, rfl⟩
  | some (.arr elems) =>
    obtain ⟨t, ht⟩ := Option.isSome_iff_exists.mp h
    simp only [printed?] at ht
    exact ⟨.str (t ++ c.numberText n), by simp [plus?, ht], rfl⟩
  | some (.obj fields) =>
    obtain ⟨t, ht⟩ := Option.isSome_iff_exists.mp h
    simp only [printed?] at ht
    exact ⟨.str (t ++ c.numberText n), by simp [plus?, ht], rfl⟩

end Json

end Ecommerce
