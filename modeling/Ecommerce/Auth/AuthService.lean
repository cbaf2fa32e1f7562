import Ecommerce.Common.Errors
import Ecommerce.Database.Entities

/-!
# AuthService — the tokens the service issues and the guard that reads them

Signing and verifying belong to the token library, a parameter here.  What the code relies on is
that a token carries the payload it was signed with: a verification either fails or yields it.
-/

namespace Ecommerce.Auth

inductive UserRole where
  | user
  | admin
deriving DecidableEq

structure User where
  id : UUID
  email : String
  password : String
  role : UserRole
deriving DecidableEq

/-- What is signed, and what a controller gets of a request's user; `sub` is the text of an id. -/
structure JwtPayloadDto where
  sub : String
  email : String
  roles : List UserRole
deriving DecidableEq

/-- The content of a verified token; `roles` may be missing. -/
structure JwtPayload where
  sub : String
  iat : Nat
  exp : Nat
  email : String
  roles : Option (List UserRole)
deriving DecidableEq

/-- The token library: a payload is signed at a time for a number of seconds, under a secret. -/
structure JwtService (Token : Type) where
  sign : (secret : String) → (expiresIn : Nat) → (now : Nat) → JwtPayloadDto → Token
  -- `none` for a wrong signature, a malformed or an expired token
  verify : (secret : String) → (now : Nat) → Token → Option JwtPayload

/-- Whatever secret it is checked under, a token yields the payload it was signed with or nothing. -/
def JwtService.CarriesPayload {Token : Type} (jwt : JwtService Token) : Prop :=
  ∀ secret secret' expiresIn now now' dto payload,
    jwt.verify secret' now' (jwt.sign secret expiresIn now dto) = some payload →
      payload.sub = dto.sub ∧ payload.email = dto.email ∧ payload.roles = some dto.roles

/-- The variables of the configuration the tokens depend on. -/
structure JwtConfig where
  atSecret : String
  atMaxAgeS : Nat
  rtSecret : String
  rtMaxAgeS : Nat

structure TokenResponseDto (Token : Type) where
  accessToken : Token
  refreshToken : Token
  tokenType : String
  expiresIn : Nat

section Tokens

variable {Token : Type} (jwt : JwtService Token) (config : JwtConfig)

def prepareTokenResponse (now : Nat) (user : User) : TokenResponseDto Token :=
  let payload : JwtPayloadDto := { email := user.email, sub := user.id.text, roles := [user.role] }
  { accessToken := jwt.sign config.atSecret config.atMaxAgeS now payload
    refreshToken := jwt.sign config.rtSecret config.rtMaxAgeS now payload
    tokenType := "Bearer"
    expiresIn := config.atMaxAgeS }

/-- `JwtStrategy.validate`. -/
def validate (payload : JwtPayload) : JwtPayloadDto where
  sub := payload.sub
  email := payload.email
  roles := payload.roles.getD []

/-- `JwtAuthGuard` on a route that is not public: the user of the request, or 401. -/
def authenticate (now : Nat) (token : Option Token) : Except HttpError JwtPayloadDto :=
  match token.bind (jwt.verify config.atSecret now) with
  | some payload => .ok (validate payload)
  | none => .error .unauthorized

/-- One of the two tokens of a response prepared for the user, at any time. -/
def Issued (user : User) (token : Token) : Prop :=
  ∃ now, token = (prepareTokenResponse jwt config now user).accessToken ∨
    token = (prepareTokenResponse jwt config now user).refreshToken

variable {jwt config}

/-- Whoever shows a token issued to a user is let through as that user or not at all. -/
theorem Issued.sub_eq (hjwt : jwt.CarriesPayload) {user : User} {token : Token}
    (h : Issued jwt config user token) {now : Nat} {payload : JwtPayloadDto}
    (hauth : authenticate jwt config now (some token) = .ok payload) :
    payload.sub = user.id.text := by
  unfold authenticate at hauth
  rw [Option.bind_some] at hauth
  split at hauth
  · rename_i verified hverified
    rw [← Except.ok.inj hauth]
    obtain ⟨signedAt, rfl | rfl⟩ := h
    · exact (hjwt _ _ _ _ _ _ _ hverified).1
    · exact (hjwt _ _ _ _ _ _ _ hverified).1
  · cases hauth

end Tokens

end Ecommerce.Auth
