import Mathlib.Algebra.GroupWithZero.Nat
import Mathlib.Data.List.Lex
import Mathlib.Order.Defs.Unbundled
import Mathlib.Order.Fin.Basic

/-!
# Uuid — the `uuid` column type and its texts

A `uuid` is stored as 128 bits, whatever the text it was given as.  The database reads a text with
`uuid_in` (either letter case, optional braces, optional hyphens) and writes it back with `uuid_out`
(lower case, hyphens after 8, 12, 16 and 20 digits).  Client code only ever sees texts.
-/

namespace Ecommerce

/-- A value of PostgreSQL's `uuid` type, as its thirty-two hexadecimal digits. -/
structure UUID where
  digits : List (Fin 16)
  length_digits : digits.length = 32
deriving DecidableEq

namespace UUID

-- what the numerals of digits go through
instance : NeZero 16 := ⟨by decide⟩

/-- The `uuid` whose 128 bits are those of `n`. -/
def ofNat (n : Nat) : UUID where
  digits := (List.range 32).map fun i => Fin.ofNat 16 (n / 16 ^ (31 - i))
  length_digits := by simp

def hexChar (d : Fin 16) : Char :=
  if d.val < 10 then Char.ofNat (48 + d.val) else Char.ofNat (87 + d.val)

def hexValue (c : Char) : Option (Fin 16) :=
  let n := c.toNat
  if 48 ≤ n ∧ n ≤ 57 then some (Fin.ofNat 16 (n - 48))
  else if 97 ≤ n ∧ n ≤ 102 then some (Fin.ofNat 16 (n - 87))
  else if 65 ≤ n ∧ n ≤ 70 then some (Fin.ofNat 16 (n - 55))
  else none

/-- `uuid_out`: the text a query returns. -/
def text (u : UUID) : String :=
  let part (start len : Nat) := ((u.digits.drop start).take len).map hexChar
  String.ofList (part 0 8 ++ '-' :: part 8 4 ++ '-' :: part 12 4 ++ '-' :: part 16 4 ++
    '-' :: part 20 12)

/-- The byte loop of `string_to_uuid`.  `n` bytes are left to read; after every second byte but the
last a hyphen may stand. -/
def readBytes : Nat → List Char → Option (List (Fin 16) × List Char)
  | 0, cs => some ([], cs)
  | n + 1, a :: b :: cs => do
    let x ← hexValue a
    let y ← hexValue b
    let cs := if n % 2 = 0 ∧ 0 < n ∧ cs.head? = some '-' then cs.tail else cs
    let (ds, rest) ← readBytes n cs
    return (x :: y :: ds, rest)
  | _ + 1, _ => none

theorem readBytes_length {n : Nat} {cs : List Char} {ds : List (Fin 16)} {rest : List Char}
    (h : readBytes n cs = some (ds, rest)) : ds.length = 2 * n := by
  induction n generalizing cs ds rest with
  | zero =>
    simp only [readBytes, Option.some.injEq, Prod.mk.injEq] at h
    rw [← h.1, List.length_nil]
  | succ n ih =>
    rcases cs with - | ⟨a, - | ⟨b, cs⟩⟩
    · simp [readBytes] at h
    · simp [readBytes] at h
    · simp only [readBytes, Option.bind_eq_bind, Option.bind_eq_some_iff] at h
      obtain ⟨x, -, y, -, ⟨ds', rest'⟩, hr, hds⟩ := h
      simp only [Option.pure_def, Option.some.injEq, Prod.mk.injEq] at hds
      rw [← hds.1, List.length_cons, List.length_cons, ih hr]
      omega

/-- Sixteen bytes followed by exactly `close`. -/
def readClosed (close cs : List Char) : Option (List (Fin 16)) :=
  match readBytes 16 cs with
  | some (ds, rest) => if rest = close then some ds else none
  | none => none

/-- The digits of the whole text, which stands between braces when it starts with one. -/
def readDigits (cs : List Char) : Option (List (Fin 16)) :=
  if cs.head? = some '{' then readClosed ['}'] cs.tail else readClosed [] cs

theorem readClosed_length {close cs : List Char} {ds : List (Fin 16)}
    (h : readClosed close cs = some ds) : ds.length = 32 := by
  unfold readClosed at h
  split at h
  · rename_i hr
    split at h
    · rw [← Option.some.inj h]
      exact readBytes_length hr
    · cases h
  · cases h

theorem readDigits_length {cs : List Char} {ds : List (Fin 16)} (h : readDigits cs = some ds) :
    ds.length = 32 := by
  unfold readDigits at h
  split at h
  · exact readClosed_length h
  · exact readClosed_length h

/-- `uuid_in`: how the database reads a text, `none` for the error "invalid input syntax". -/
def ofText (s : String) : Option UUID :=
  match h : readDigits s.toList with
  | some ds => some ⟨ds, readDigits_length h⟩
  | none => none

/-! ## What is written is read back -/

theorem hexValue_hexChar (d : Fin 16) : hexValue (hexChar d) = some d := by
  revert d
  decide

theorem hexChar_ne_brace (d : Fin 16) : hexChar d ≠ '{' := by
  revert d
  decide

theorem hexChar_ne_hyphen (d : Fin 16) : hexChar d ≠ '-' := by
  revert d
  decide

theorem readBytes_succ (n : Nat) (a b : Fin 16) (cs : List Char) :
    readBytes (n + 1) (hexChar a :: hexChar b :: cs) =
      (readBytes n (if n % 2 = 0 ∧ 0 < n ∧ cs.head? = some '-' then cs.tail else cs)).map
        fun r => (a :: b :: r.1, r.2) := by
  simp only [readBytes, hexValue_hexChar, Option.bind_eq_bind, Option.bind_some]
  cases readBytes n (if n % 2 = 0 ∧ 0 < n ∧ cs.head? = some '-' then cs.tail else cs) <;> rfl

/-- The hyphens `uuid_out` writes stand where `uuid_in` skips them. -/
theorem readDigits_text (u : UUID) : readDigits u.text.toList = some u.digits := by
  obtain ⟨ds, hlen⟩ := u
  match ds, hlen with
  | [a0, a1, a2, a3, a4, a5, a6, a7, b0, b1, b2, b3, c0, c1, c2, c3, d0, d1, d2, d3,
      e0, e1, e2, e3, e4, e5, e6, e7, e8, e9, e10, e11], _ =>
    simp [text, readDigits, readClosed, readBytes_succ, readBytes, hexChar_ne_brace,
      hexChar_ne_hyphen]

theorem ofText_text (u : UUID) : ofText u.text = some u := by
  unfold ofText
  split
  · rename_i ds hds
    have hdigits : u.digits = ds := Option.some.inj ((readDigits_text u).symm.trans hds)
    subst hdigits
    rfl
  · rename_i hnone
    rw [readDigits_text u] at hnone
    cases hnone

theorem text_ne_empty (u : UUID) : u.text ≠ "" := by
  intro h
  have hread : ofText "" = some u := h ▸ ofText_text u
  have hempty : ofText "" = none := by decide
  rw [hempty] at hread
  cases hread

/-! ## The order of the column type -/

/-- The database compares the bytes from the first to the last. -/
instance : LE UUID := ⟨fun a b => a.digits ≤ b.digits⟩

instance : DecidableLE UUID := fun a b => inferInstanceAs (Decidable (a.digits ≤ b.digits))

theorem le_antisymm {a b : UUID} (h : a ≤ b) (h' : b ≤ a) : a = b := by
  have hdigits : a.digits = b.digits := Std.le_antisymm (α := List (Fin 16)) h h'
  cases a
  cases b
  cases hdigits
  rfl

theorem le_total (a b : UUID) : a ≤ b ∨ b ≤ a := Std.le_total (α := List (Fin 16))

theorem le_trans {a b c : UUID} (h : a ≤ b) (h' : b ≤ c) : a ≤ c :=
  Std.le_trans (α := List (Fin 16)) h h'

instance : Std.Antisymm (α := UUID) (· ≤ ·) := ⟨fun _ _ => le_antisymm⟩

instance : Std.Total (α := UUID) (· ≤ ·) := ⟨le_total⟩

instance : IsTrans UUID (· ≤ ·) := ⟨fun _ _ _ => le_trans⟩

end UUID

end Ecommerce
