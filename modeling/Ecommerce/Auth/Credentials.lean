import Ecommerce.Auth.AuthService
import Ecommerce.Common.HttpExceptionFilter

/-!
# Credentials — the bodies of a log in and of a sign-up

`ValidationPipe` checks both properties of a body and reports each one that does not pass.  The
checks on texts belong to the validation library, a parameter here.
-/

namespace Ecommerce.Auth

/-- The checks behind `@IsEmail()` and `@IsStrongPassword()`, on texts. -/
structure Validator where
  isEmail : String → Bool
  isStrongPassword : String → Bool

structure LogInDto where
  email : String
  password : String

structure SignUpDto where
  email : String
  password : String

/-- A property with a decorator that accepts some texts and nothing else. -/
structure TextProperty where
  name : String
  accepts : String → Bool
  message : String

namespace TextProperty

/-- The accepted text. -/
def read (c : TextProperty) (body : Json) : Option String :=
  match body.get? c.name with
  | some (.str s) => if c.accepts s then some s else none
  | _ => none

def problems (c : TextProperty) (body : Json) : List String :=
  if (c.read body).isNone then [c.message] else []

theorem read_congr (c : TextProperty) {body body' : Json} (h : body.get? c.name = body'.get? c.name) :
    c.read body = c.read body' := by
  rw [read, read, h]

theorem get?_of_read {c : TextProperty} {body : Json} {s : String} (h : c.read body = some s) :
    body.get? c.name = some (.str s) := by
  unfold read at h
  split at h
  · rename_i t ht
    split at h
    · rw [ht, Option.some.inj h]
    · cases h
  · cases h

theorem problems_eq_nil (c : TextProperty) (body : Json) :
    c.problems body = [] ↔ ∃ s, c.read body = some s := by
  rw [problems]
  cases c.read body with
  | none => simp
  | some s => simp

end TextProperty

section Bodies

variable (v : Validator)

def emailProperty : TextProperty where
  name := "email"
  accepts := v.isEmail
  message := "email must be an email"

/-- `password` with `@IsString()`. -/
def logInPassword : TextProperty where
  name := "password"
  accepts := fun _ => true
  message := "password must be a string"

/-- `password` with `@IsStrongPassword()`. -/
def signUpPassword : TextProperty where
  name := "password"
  accepts := v.isStrongPassword
  message := "password is not strong enough"

/-- What `ValidationPipe` makes of a body with an email and a password. -/
def readBody (password : TextProperty) (body : Json) : Except Exception (String × String) :=
  match (emailProperty v).read body, password.read body with
  | some email, some text => .ok (email, text)
  | _, _ => .error (.invalid ((emailProperty v).problems body ++ password.problems body))

def LogInDto.ofJson (body : Json) : Except Exception LogInDto := do
  let (email, password) ← readBody v logInPassword body
  return { email, password }

def SignUpDto.ofJson (body : Json) : Except Exception SignUpDto := do
  let (email, password) ← readBody v (signUpPassword v) body
  return { email, password }

/-- What `ValidationPipe` has to say against a body for a log in. -/
def LogInDto.problems (body : Json) : List String :=
  (emailProperty v).problems body ++ logInPassword.problems body

end Bodies

/-- `{ ...logInDto }`. -/
def LogInDto.fields (dto : LogInDto) : List (String × Json) :=
  [("email", .str dto.email), ("password", .str dto.password)]

/-- `{ ...signUpDto }`. -/
def SignUpDto.fields (dto : SignUpDto) : List (String × Json) :=
  [("email", .str dto.email), ("password", .str dto.password)]

section Laws

variable {v : Validator} {body : Json}

theorem readBody_ok {password : TextProperty} {p : String × String}
    (h : readBody v password body = .ok p) :
    (emailProperty v).read body = some p.1 ∧ password.read body = some p.2 := by
  unfold readBody at h
  split at h
  · rename_i email text hemail htext
    cases h
    exact ⟨hemail, htext⟩
  · cases h

theorem readBody_of_read {password : TextProperty} {email text : String}
    (hemail : (emailProperty v).read body = some email) (htext : password.read body = some text) :
    readBody v password body = .ok (email, text) := by
  rw [readBody, hemail, htext]

theorem readBody_error {password : TextProperty} {err : Exception}
    (h : readBody v password body = .error err) :
    err = .invalid ((emailProperty v).problems body ++ password.problems body) ∧
      (emailProperty v).problems body ++ password.problems body ≠ [] := by
  unfold readBody at h
  split at h
  · cases h
  · rename_i hread
    cases h
    refine ⟨rfl, fun hnil => ?_⟩
    -- without a problem both properties were read
    obtain ⟨hemail, htext⟩ := List.append_eq_nil_iff.mp hnil
    obtain ⟨email, hemail⟩ := ((emailProperty v).problems_eq_nil body).mp hemail
    obtain ⟨text, htext⟩ := (password.problems_eq_nil body).mp htext
    exact hread email text hemail htext

end Laws

end Ecommerce.Auth
