import Ecommerce.Users.UsersService

/-!
# AuthController — log in, sign-up and refresh

A handler starts from the body that came in and, for a refresh, from the cookie.  Whatever it throws
leaves it as an exception for the filter.
-/

namespace Ecommerce.Auth

open Users

/-- What hashes and compares passwords; the salt of a hash is drawn at random. -/
structure PasswordService where
  hash : (salt value : String) → String
  verify : (hash candidate : String) → Bool
  hash_length : ∀ salt value, (hash salt value).length = 60

def UserRole.text : UserRole → String
  | .user => "user"
  | .admin => "admin"

/-- `{ ...payload }`. -/
def JwtPayload.fields (payload : JwtPayload) : List (String × Json) :=
  [("email", .str payload.email), ("sub", .str payload.sub)] ++
    (payload.roles.map fun roles => ("roles", .arr (roles.map fun r => .str r.text))).toList ++
    [("iat", .num (.ofInt payload.iat)), ("exp", .num (.ofInt payload.exp))]

/-- The refresh token as a log in sets it, in a cookie. -/
structure RefreshTokenCookie where
  value : String
  httpOnly : Bool
  secure : Bool
  sameSite : String
  maxAge : Nat

structure UserResponseDto where
  id : UUID
  email : String
  role : UserRole
  createdAt : Date

section Service

variable (passwords : PasswordService) (jwt : JwtService String) (config : JwtConfig) (now : Nat)

namespace AuthService

def login (logInDto : LogInDto) (users : List User) : Except Exception (TokenResponseDto String) :=
  match UsersService.findByEmail logInDto.email users with
  | none => .error (.domain (.entityNotFound "User" logInDto.fields))
  | some user =>
    if passwords.verify user.password logInDto.password then
      .ok (prepareTokenResponse jwt config now user)
    else
      .error (.domain (.incorrectPassword logInDto.fields))

/-- `signUp`; the salt is the hash function's, the id and the time are the database's. -/
def signUp (salt : String) (id : UUID) (createdAt : Date) (signUpDto : SignUpDto)
    (users : List User) : Except Exception (List User × SavedUser) :=
  let hashedPassword := passwords.hash salt signUpDto.password
  UsersService.create id createdAt signUpDto hashedPassword users

def refreshAccessToken (payload : JwtPayload) (refreshToken : String) (users : List User) :
    Except Exception (TokenResponseDto String) :=
  match UsersService.findById payload.sub users with
  | .error _ => .error .other
  | .ok none =>
    .error (.domain (.entityNotFound "User" (payload.fields ++ [("refreshToken", .str refreshToken)])))
  | .ok (some user) => .ok (prepareTokenResponse jwt config now user)

end AuthService

/-- `JwtCookieAuthGuard`: the payload of the refresh token, or 401. -/
def cookieAuthenticate (refreshToken : Option String) : Except Exception (String × JwtPayload) :=
  match refreshToken.bind fun token => (jwt.verify config.rtSecret now token).map (token, ·) with
  | some verified => .ok verified
  | none => .error .unauthorized

end Service

/-! ## The requests -/

section Requests

variable (v : Validator) (passwords : PasswordService) (jwt : JwtService String)
variable (config : JwtConfig) (now : Nat)

/-- `POST /auth/login`. -/
def login (body : Json) (users : List User) :
    Except Exception (TokenResponseDto String × RefreshTokenCookie) := do
  let logInDto ← LogInDto.ofJson v body
  let result ← AuthService.login passwords jwt config now logInDto users
  return (result, { value := result.refreshToken, httpOnly := true, secure := true,
                    sameSite := "none", maxAge := config.rtMaxAgeS * 1000 })

/-- `POST /auth/sign-up`. -/
def signUp (salt : String) (id : UUID) (createdAt : Date) (body : Json) (users : List User) :
    Except Exception (List User × UserResponseDto) := do
  let signUpDto ← SignUpDto.ofJson v body
  let (users, user) ← AuthService.signUp passwords salt id createdAt signUpDto users
  return (users, { id := user.id, email := user.email, role := user.role,
                   createdAt := user.createdAt })

/-- `POST /auth/refresh`. -/
def refresh (cookie : Option String) (users : List User) :
    Except Exception (TokenResponseDto String) := do
  let (refreshToken, payload) ← cookieAuthenticate jwt config now cookie
  AuthService.refreshAccessToken jwt config now payload refreshToken users

end Requests

end Ecommerce.Auth
