import Ecommerce.Auth.Guards

/-!
# UsersController — the account of the user of a request

The response tells when the account was created, so the handler reads whole rows.
-/

namespace Ecommerce.Users

open Auth

/-- The rows as the guards and the other handlers see them. -/
def accounts (rows : List SavedUser) : List User := rows.map (·.toUser)

/-- `UsersService.findById`, with all that the row has. -/
def UsersService.findRowById (id : String) (rows : List SavedUser) :
    Except QueryError (Option SavedUser) :=
  match UUID.ofText id with
  | some id => .ok (rows.find? (·.id = id))
  | none => .error .invalidText

def SavedUser.toResponse (row : SavedUser) : UserResponseDto where
  id := row.id
  email := row.email
  role := row.role
  createdAt := row.createdAt

namespace UsersController

/-- `me`; without `req.user` reading `sub` throws a `TypeError`. -/
def me (user : Option JwtPayloadDto) (rows : List SavedUser) : Except Exception UserResponseDto :=
  match user with
  | none => .error .other
  | some payload =>
    match UsersService.findRowById payload.sub rows with
    | .error e => .error (HttpError.internal e).toException
    | .ok none => .error (HttpError.notFound "User not found").toException
    | .ok (some row) => .ok row.toResponse

end UsersController

/-- `UsersController.me` has no decorators of its own. -/
def meRoute : ExecutionContext where
  getClass := .none
  getHandler := .none

/-- `GET /users/me`. -/
def getMe {Token : Type} (jwt : JwtService Token) (config : JwtConfig) (now : Nat)
    (token : Option Token) (rows : List SavedUser) : Except Exception UserResponseDto := do
  let user ← guards jwt config now meRoute token
  UsersController.me user rows

theorem findRowById_accounts (id : String) (rows : List SavedUser) :
    UsersService.findById id (accounts rows) =
      (UsersService.findRowById id rows).map (·.map (·.toUser)) := by
  unfold UsersService.findById UsersService.findRowById
  cases UUID.ofText id with
  | none => rfl
  | some id =>
    show Except.ok _ = Except.ok _
    rw [accounts, List.find?_map]
    rfl

/-- The row of an id, where no two rows have one id. -/
theorem findRowById_text {rows : List SavedUser} (hids : ((accounts rows).map (·.id)).Nodup)
    {row : SavedUser} (hmem : row ∈ rows) :
    UsersService.findRowById row.id.text rows = .ok (some row) := by
  unfold UsersService.findRowById
  rw [UUID.ofText_text]
  dsimp only
  congr 1
  have hids : (rows.map (·.id)).Nodup := by rwa [accounts, List.map_map] at hids
  obtain ⟨row', hrow'⟩ : ∃ row', rows.find? (·.id = row.id) = some row' :=
    Option.isSome_iff_exists.mp (List.find?_isSome.mpr ⟨row, hmem, by simp⟩)
  have hid : row'.id = row.id := by simpa using List.find?_some hrow'
  rw [hrow', List.inj_on_of_nodup_map hids (List.mem_of_find?_eq_some hrow') hmem hid]

end Ecommerce.Users
