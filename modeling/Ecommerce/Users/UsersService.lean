import Ecommerce.Auth.Credentials

/-!
# UsersService — the table `users` and the statements of the service on it
-/

namespace Ecommerce.Users

open Auth

/-- A row as it comes back from an insert. -/
structure SavedUser extends User where
  createdAt : Date

/-- What an insert into `users` can fail with. -/
inductive InsertError where
  | valueTooLong
  | uniqueViolation
deriving DecidableEq

/-- The SQLSTATE the driver puts on the error. -/
def InsertError.code : InsertError → String
  | .valueTooLong => "22001"
  | .uniqueViolation => "23505"

/-- The length of `email` and of `password`, both `character varying`. -/
def maxLength : Nat := 100

/-- An insert looks at the lengths before it looks at `PK_users_id` and `UQ_users_email`. -/
def insert (users : List User) (row : SavedUser) : Except InsertError (List User × SavedUser) :=
  if maxLength < row.email.length ∨ maxLength < row.password.length then
    .error .valueTooLong
  else if ∃ u ∈ users, u.id = row.id ∨ u.email = row.email then
    .error .uniqueViolation
  else
    .ok (users ++ [row.toUser], row)

namespace UsersService

/-- `create`; the id and the time of creation are the database's. -/
def create (id : UUID) (createdAt : Date) (signUpDto : SignUpDto) (hashedPassword : String)
    (users : List User) : Except Exception (List User × SavedUser) :=
  let row : SavedUser := { id, email := signUpDto.email, password := hashedPassword, role := .user,
                           createdAt }
  match insert users row with
  | .ok saved => .ok saved
  | .error err =>
    if err.code = "23505" then
      .error (.domain (.duplicateEntityCreation "User" signUpDto.fields))
    else
      .error .other

def findById (id : String) (users : List User) : Except QueryError (Option User) :=
  match UUID.ofText id with
  | some id => .ok (users.find? (·.id = id))
  | none => .error .invalidText

def findByEmail (email : String) (users : List User) : Option User :=
  users.find? (·.email = email)

/-- A user is created, or the email is too long for its column, or something unique is taken. -/
theorem create_cases (id : UUID) (createdAt : Date) (signUpDto : SignUpDto)
    {hashedPassword : String} (hhash : hashedPassword.length ≤ maxLength) (users : List User) :
    (maxLength < signUpDto.email.length ∧
      create id createdAt signUpDto hashedPassword users = .error .other) ∨
    (signUpDto.email.length ≤ maxLength ∧
      (∃ u ∈ users, u.id = id ∨ u.email = signUpDto.email) ∧
      create id createdAt signUpDto hashedPassword users =
        .error (.domain (.duplicateEntityCreation "User" signUpDto.fields))) ∨
    (signUpDto.email.length ≤ maxLength ∧
      ∃ saved, create id createdAt signUpDto hashedPassword users = .ok saved) := by
  by_cases hlong : maxLength < signUpDto.email.length
  · refine .inl ⟨hlong, ?_⟩
    rw [create, insert, if_pos (.inl hlong)]
    rfl
  · have hfits : ¬ (maxLength < signUpDto.email.length ∨ maxLength < hashedPassword.length) := by
      omega
    by_cases htaken : ∃ u ∈ users, u.id = id ∨ u.email = signUpDto.email
    · refine .inr (.inl ⟨by omega, htaken, ?_⟩)
      rw [create, insert, if_neg hfits, if_pos htaken]
      rfl
    · refine .inr (.inr ⟨by omega, ?_⟩)
      rw [create, insert, if_neg hfits, if_neg htaken]
      exact ⟨_, rfl⟩

end UsersService

end Ecommerce.Users
