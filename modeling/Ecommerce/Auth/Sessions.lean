import Ecommerce.Lib.Transition
import Ecommerce.Auth.Passwords
import Ecommerce.Users.UsersController

/-!
# Sessions — sign-ups, log ins and refreshes in any order, and the tokens they give out

The clients are whoever sends a request: they may show any token they were given, whoever it was
given to, and any text that was not signed with the secrets.  A request takes no time here; time
passes between the requests.
-/

namespace Ecommerce.Auth

open Users

/-- What the token library promises: a token is accepted under the secret it was signed with until
it expires, with the payload it was signed with, and under no other secret. -/
structure JwtService.Signs {Token : Type} (jwt : JwtService Token) : Prop where
  verify_sign : ∀ secret expiresIn signedAt now dto,
    jwt.verify secret now (jwt.sign secret expiresIn signedAt dto) =
      if now < signedAt + expiresIn then
        some { sub := dto.sub, iat := signedAt, exp := signedAt + expiresIn, email := dto.email
               roles := some dto.roles }
      else none
  other_secret : ∀ secret secret' expiresIn signedAt now dto, secret' ≠ secret →
    jwt.verify secret' now (jwt.sign secret expiresIn signedAt dto) = none

namespace Sessions

/-- The request a token response answers. -/
inductive Origin where
  | logIn (body : Json)
  | refresh (refreshToken : String)

/-- A token response, with the time it was prepared at and its request. -/
structure Grant where
  now : Nat
  origin : Origin
  response : TokenResponseDto String

structure State where
  rows : List SavedUser
  now : Nat
  -- Every token response so far, the latest first; no step reads it.
  grants : List Grant

def State.users (s : State) : List User := accounts s.rows

inductive Label where
  | signUp (salt : String) (id : UUID) (createdAt : Date) (body : Json)
  | logIn (body : Json)
  -- The value of the cookie, if there is one.
  | refresh (cookie : Option String)
  | wait (seconds : Nat)

section System

variable (v : Validator) (passwords : PasswordService) (jwt : JwtService String)
variable (config : JwtConfig)

/-- `POST /auth/sign-up`, with all that the new row has. -/
def signUpRow (salt : String) (id : UUID) (createdAt : Date) (body : Json) (users : List User) :
    Except Exception SavedUser := do
  let signUpDto ← SignUpDto.ofJson v body
  let (_, saved) ← AuthService.signUp passwords salt id createdAt signUpDto users
  return saved

/-- What a request leaves behind; one that fails leaves nothing. -/
def State.after (s : State) : Label → State
  | .signUp salt id createdAt body =>
    match signUpRow v passwords salt id createdAt body s.users with
    | .ok saved => { s with rows := s.rows ++ [saved] }
    | .error _ => s
  | .logIn body =>
    match login v passwords jwt config s.now body s.users with
    | .ok (response, _) =>
      { s with grants := { now := s.now, origin := .logIn body, response } :: s.grants }
    | .error _ => s
  | .refresh none => s
  | .refresh (some token) =>
    match refresh jwt config s.now (some token) s.users with
    | .ok response =>
      { s with grants := { now := s.now, origin := .refresh token, response } :: s.grants }
    | .error _ => s
  | .wait seconds => { s with now := s.now + seconds }

/-- A token that a client can show: one it was given, or one that no check accepts. -/
def Presentable (grants : List Grant) (token : String) : Prop :=
  (∃ g ∈ grants, token = g.response.accessToken ∨ token = g.response.refreshToken) ∨
    ∀ now, jwt.verify config.atSecret now token = none ∧ jwt.verify config.rtSecret now token = none

/-- The runs from a table of users, before any token was given out. -/
def system (rows : List SavedUser) : Transition.System State Label where
  init := fun s => s.rows = rows ∧ s.grants = []
  step := fun s l s' =>
    (∀ token, l = .refresh (some token) → Presentable jwt config s.grants token) ∧
      s' = s.after v passwords jwt config l

/-- The password of a log in is the user's. -/
def Proves (body : Json) (user : User) : Prop :=
  ∃ password, (emailProperty v).read body = some user.email ∧
    logInPassword.read body = some password ∧ passwords.verify user.password password = true

/-- The grant of the response prepared for a user. -/
def grantFor (user : User) (now : Nat) (origin : Origin) : Grant :=
  { now, origin, response := prepareTokenResponse jwt config now user }

/-- The grants that go back to a log in of the user, each refresh before its token expires. -/
inductive Session (grants : List Grant) (user : User) : Grant → Prop
  | logIn {now : Nat} {body : Json} (hgrant : grantFor jwt config user now (.logIn body) ∈ grants)
      (hproves : Proves v passwords body user) :
      Session grants user (grantFor jwt config user now (.logIn body))
  | refresh {g : Grant} {now : Nat} (hsession : Session grants user g)
      (hgrant : grantFor jwt config user now (.refresh g.response.refreshToken) ∈ grants)
      (hafter : g.now ≤ now) (halive : now < g.now + config.rtMaxAgeS) :
      Session grants user (grantFor jwt config user now (.refresh g.response.refreshToken))

end System

section Requests

variable {v : Validator} {passwords : PasswordService} {jwt : JwtService String}
variable {config : JwtConfig} {now : Nat} {users : List User}

theorem insert_saved {users' : List User} {row saved : SavedUser}
    (h : Users.insert users row = .ok (users', saved)) :
    saved = row ∧ (∀ u ∈ users, u.id ≠ row.id) ∧ users' = users ++ [row.toUser] := by
  unfold Users.insert at h
  split at h
  · cases h
  · split at h
    · cases h
    · rename_i hfree
      obtain ⟨rfl, rfl⟩ := Prod.mk.inj (Except.ok.inj h)
      exact ⟨rfl, fun u hu hid => hfree ⟨u, hu, .inl hid⟩, rfl⟩

theorem create_saved {id : UUID} {createdAt : Date} {dto : SignUpDto} {hashed : String}
    {users' : List User} {saved : SavedUser}
    (h : UsersService.create id createdAt dto hashed users = .ok (users', saved)) :
    saved.role = .user ∧ (∀ u ∈ users, u.id ≠ saved.id) ∧ users' = users ++ [saved.toUser] := by
  unfold UsersService.create at h
  dsimp only at h
  split at h
  · rename_i hinsert
    cases h
    obtain ⟨rfl, hfree, rfl⟩ := insert_saved hinsert
    exact ⟨rfl, hfree, rfl⟩
  · split at h <;> cases h

/-- The row of a sign-up is what the handler answers and what the table gets. -/
theorem signUp_eq {rows : List SavedUser} (salt : String) (id : UUID) (createdAt : Date)
    (body : Json) : signUp v passwords salt id createdAt body (accounts rows) =
      (signUpRow v passwords salt id createdAt body (accounts rows)).map fun saved =>
        (accounts (rows ++ [saved]), saved.toResponse) := by
  unfold signUp signUpRow
  cases SignUpDto.ofJson v body with
  | error e => rfl
  | ok dto =>
    simp only [bind, Except.bind, pure, Except.pure]
    cases hsignUp : AuthService.signUp passwords salt id createdAt dto (accounts rows) with
    | error e => rfl
    | ok result =>
      obtain ⟨users', saved⟩ := result
      rw [(create_saved (hsignUp : UsersService.create id createdAt dto _ _ = _)).2.2]
      simp [Except.map, accounts, SavedUser.toResponse]

/-- A sign-up adds a user without privileges, under an id of its own. -/
theorem signUpRow_ok {salt : String} {id : UUID} {createdAt : Date} {body : Json}
    {saved : SavedUser} (h : signUpRow v passwords salt id createdAt body users = .ok saved) :
    saved.role = .user ∧ ∀ u ∈ users, u.id ≠ saved.id := by
  unfold signUpRow at h
  cases hread : SignUpDto.ofJson v body with
  | error e =>
    rw [hread] at h
    cases h
  | ok dto =>
    rw [hread] at h
    simp only [bind, Except.bind, pure, Except.pure] at h
    cases hsignUp : AuthService.signUp passwords salt id createdAt dto users with
    | error e =>
      rw [hsignUp] at h
      cases h
    | ok result =>
      obtain ⟨users', saved'⟩ := result
      rw [hsignUp] at h
      cases h
      obtain ⟨hrole, hfree, -⟩ :=
        create_saved (hsignUp : UsersService.create id createdAt dto _ _ = _)
      exact ⟨hrole, hfree⟩

/-- A log in succeeds for a user of the table whose password it brings. -/
theorem login_ok {body : Json} {response : TokenResponseDto String} {cookie : RefreshTokenCookie}
    (h : login v passwords jwt config now body users = .ok (response, cookie)) :
    ∃ user ∈ users, Proves v passwords body user ∧
      response = prepareTokenResponse jwt config now user := by
  unfold login LogInDto.ofJson at h
  cases hread : readBody v logInPassword body with
  | error e =>
    rw [hread] at h
    cases h
  | ok p =>
    obtain ⟨hemail, hpassword⟩ := readBody_ok hread
    rw [hread] at h
    simp only [bind, Except.bind, pure, Except.pure, AuthService.login] at h
    split at h
    · cases h
    · rename_i heq
      split at heq
      · cases heq
      · rename_i user hfind
        split at heq
        · rename_i hverify
          cases heq
          cases h
          have huser : user.email = p.1 := by simpa using List.find?_some hfind
          exact ⟨user, List.mem_of_find?_eq_some hfind,
            ⟨p.2, by rw [hemail, huser], hpassword, hverify⟩, rfl⟩
        · cases heq

/-- A refresh succeeds with a valid refresh token, for the user it names. -/
theorem refresh_ok {token : String} {response : TokenResponseDto String}
    (h : refresh jwt config now (some token) users = .ok response) :
    ∃ payload, jwt.verify config.rtSecret now token = some payload ∧
      ∃ user ∈ users, UUID.ofText payload.sub = some user.id ∧
        response = prepareTokenResponse jwt config now user := by
  unfold refresh cookieAuthenticate at h
  rw [Option.bind_some] at h
  cases hverify : jwt.verify config.rtSecret now token with
  | none =>
    rw [hverify] at h
    cases h
  | some payload =>
    rw [hverify] at h
    simp only [Option.map_some, bind, Except.bind, AuthService.refreshAccessToken,
      UsersService.findById] at h
    refine ⟨payload, rfl, ?_⟩
    cases hid : UUID.ofText payload.sub with
    | none =>
      rw [hid] at h
      cases h
    | some id =>
      rw [hid] at h
      cases hfind : users.find? (·.id = id) with
      | none =>
        simp only [hfind] at h
        cases h
      | some user =>
        simp only [hfind] at h
        cases h
        have huser : user.id = id := by simpa using List.find?_some hfind
        exact ⟨user, List.mem_of_find?_eq_some hfind, by rw [huser], rfl⟩

theorem refresh_succeeds {token : String} {payload : JwtPayload} {user : User}
    (hverify : jwt.verify config.rtSecret now token = some payload)
    (hfind : UsersService.findById payload.sub users = .ok (some user)) :
    refresh jwt config now (some token) users = .ok (prepareTokenResponse jwt config now user) := by
  unfold refresh cookieAuthenticate
  simp only [Option.bind_some, hverify, Option.map_some, bind, Except.bind,
    AuthService.refreshAccessToken, hfind]

theorem State.after_refresh {s : State} {token : String} {payload : JwtPayload} {user : User}
    (hverify : jwt.verify config.rtSecret s.now token = some payload)
    (hfind : UsersService.findById payload.sub s.users = .ok (some user)) :
    s.after v passwords jwt config (.refresh (some token)) =
      { s with grants := grantFor jwt config user s.now (.refresh token) :: s.grants } := by
  simp only [State.after, refresh_succeeds hverify hfind, grantFor]

variable (jwt config)

theorem login_succeeds (now : Nat) {body : Json} {user : User}
    (hfind : UsersService.findByEmail user.email users = some user)
    (hproves : Proves v passwords body user) :
    ∃ cookie, login v passwords jwt config now body users =
      .ok (prepareTokenResponse jwt config now user, cookie) := by
  obtain ⟨password, hemail, hpassword, hverify⟩ := hproves
  unfold login LogInDto.ofJson
  simp only [readBody_of_read hemail hpassword, bind, Except.bind, pure, Except.pure,
    AuthService.login, hfind, hverify, if_true]
  exact ⟨_, rfl⟩

theorem State.after_logIn {s : State} {body : Json} {user : User}
    (hfind : UsersService.findByEmail user.email s.users = some user)
    (hproves : Proves v passwords body user) :
    s.after v passwords jwt config (.logIn body) =
      { s with grants := grantFor jwt config user s.now (.logIn body) :: s.grants } := by
  obtain ⟨cookie, hlogin⟩ := login_succeeds jwt config s.now hfind hproves
  simp only [State.after, hlogin, grantFor]

end Requests

/-! ## What every state keeps -/

section Invariant

variable {v : Validator} {passwords : PasswordService} {jwt : JwtService String}
variable {config : JwtConfig} {rows : List SavedUser} {s : State}

theorem Session.mono {grants grants' : List Grant} {user : User} {g : Grant}
    (hsub : ∀ g ∈ grants, g ∈ grants') (h : Session v passwords jwt config grants user g) :
    Session v passwords jwt config grants' user g := by
  induction h with
  | logIn hgrant hproves => exact .logIn (hsub _ hgrant) hproves
  | refresh _ hgrant hafter halive ih => exact .refresh ih (hsub _ hgrant) hafter halive

theorem Session.response_eq {grants : List Grant} {user : User} {g : Grant}
    (h : Session v passwords jwt config grants user g) :
    g.response = prepareTokenResponse jwt config g.now user := by
  cases h <;> rfl

theorem Session.mem {grants : List Grant} {user : User} {g : Grant}
    (h : Session v passwords jwt config grants user g) : g ∈ grants := by
  cases h <;> assumption

variable (v passwords jwt config rows)

/-- Ids are unique, privileges are those of the start, and every grant belongs to a session of a user
of the table. -/
structure Inv (s : State) : Prop where
  ids : (s.users.map (·.id)).Nodup
  kept : ∀ row ∈ s.rows, row ∈ rows ∨ row.role = .user
  past : ∀ g ∈ s.grants, g.now ≤ s.now
  sessions : ∀ g ∈ s.grants, ∃ user ∈ s.users, Session v passwords jwt config s.grants user g

variable {v passwords jwt config rows}

/-- What a handler gets of a request with a token of the user. -/
def dtoOf (user : User) : JwtPayloadDto where
  sub := user.id.text
  email := user.email
  roles := [user.role]

/-- The payload of a token of a response for the user. -/
def payloadOf (user : User) (signedAt expiresIn : Nat) : JwtPayload where
  sub := user.id.text
  iat := signedAt
  exp := signedAt + expiresIn
  email := user.email
  roles := some [user.role]

/-- The access tokens pass the check of the guard and no other; they do so until they expire. -/
theorem verify_accessToken (hjwt : jwt.Signs) (hsecrets : config.atSecret ≠ config.rtSecret)
    {user : User} {signedAt now : Nat} {secret : String} {payload : JwtPayload}
    (hsecret : secret = config.atSecret ∨ secret = config.rtSecret)
    (h : jwt.verify secret now (prepareTokenResponse jwt config signedAt user).accessToken =
      some payload) :
    secret = config.atSecret ∧ now < signedAt + config.atMaxAgeS ∧
      payload = payloadOf user signedAt config.atMaxAgeS := by
  obtain rfl | rfl := hsecret
  · rw [prepareTokenResponse, hjwt.verify_sign] at h
    split at h
    · rename_i halive
      exact ⟨rfl, halive, (Option.some.inj h).symm⟩
    · cases h
  · rw [prepareTokenResponse, hjwt.other_secret _ _ _ _ _ _ hsecrets.symm] at h
    cases h

/-- The refresh tokens pass the check of a refresh and no other; they do so until they expire. -/
theorem verify_refreshToken (hjwt : jwt.Signs) (hsecrets : config.atSecret ≠ config.rtSecret)
    {user : User} {signedAt now : Nat} {secret : String} {payload : JwtPayload}
    (hsecret : secret = config.atSecret ∨ secret = config.rtSecret)
    (h : jwt.verify secret now (prepareTokenResponse jwt config signedAt user).refreshToken =
      some payload) :
    secret = config.rtSecret ∧ now < signedAt + config.rtMaxAgeS ∧
      payload = payloadOf user signedAt config.rtMaxAgeS := by
  obtain rfl | rfl := hsecret
  · rw [prepareTokenResponse, hjwt.other_secret _ _ _ _ _ _ hsecrets] at h
    cases h
  · rw [prepareTokenResponse, hjwt.verify_sign] at h
    split at h
    · rename_i halive
      exact ⟨rfl, halive, (Option.some.inj h).symm⟩
    · cases h

/-- Where a token comes from that passes one of the two checks. -/
theorem Inv.shown (hinv : Inv v passwords jwt config rows s) (hjwt : jwt.Signs)
    (hsecrets : config.atSecret ≠ config.rtSecret) {token secret : String} {now : Nat}
    {payload : JwtPayload} (hshown : Presentable jwt config s.grants token)
    (hsecret : secret = config.atSecret ∨ secret = config.rtSecret)
    (hverify : jwt.verify secret now token = some payload) :
    ∃ user ∈ s.users, ∃ g, Session v passwords jwt config s.grants user g ∧
      ((secret = config.atSecret ∧ token = g.response.accessToken ∧
          now < g.now + config.atMaxAgeS ∧ payload = payloadOf user g.now config.atMaxAgeS) ∨
        (secret = config.rtSecret ∧ token = g.response.refreshToken ∧
          now < g.now + config.rtMaxAgeS ∧ payload = payloadOf user g.now config.rtMaxAgeS)) := by
  obtain ⟨g, hg, htoken⟩ | hnone := hshown
  · obtain ⟨user, huser, hsession⟩ := hinv.sessions g hg
    refine ⟨user, huser, g, hsession, ?_⟩
    obtain rfl | rfl := htoken
    · rw [hsession.response_eq] at hverify
      obtain ⟨hat, halive, hpayload⟩ := verify_accessToken hjwt hsecrets hsecret hverify
      exact .inl ⟨hat, rfl, halive, hpayload⟩
    · rw [hsession.response_eq] at hverify
      obtain ⟨hrt, halive, hpayload⟩ := verify_refreshToken hjwt hsecrets hsecret hverify
      exact .inr ⟨hrt, rfl, halive, hpayload⟩
  · obtain rfl | rfl := hsecret
    · rw [(hnone now).1] at hverify
      cases hverify
    · rw [(hnone now).2] at hverify
      cases hverify

theorem users_append (s : State) (saved : SavedUser) :
    ({ s with rows := s.rows ++ [saved] } : State).users = s.users ++ [saved.toUser] := by
  simp [State.users, accounts]

theorem Inv.signUp (hinv : Inv v passwords jwt config rows s) {saved : SavedUser}
    (hrole : saved.role = .user) (hfree : ∀ u ∈ s.users, u.id ≠ saved.id) :
    Inv v passwords jwt config rows { s with rows := s.rows ++ [saved] } where
  ids := by
    rw [users_append, List.map_append, List.nodup_append]
    refine ⟨hinv.ids, List.nodup_singleton _, ?_⟩
    intro a ha b hb
    obtain ⟨u, hu, rfl⟩ := List.mem_map.mp ha
    rw [List.map_singleton, List.mem_singleton] at hb
    rw [hb]
    exact hfree u hu
  kept := by
    intro row hrow
    obtain hold | hnew := List.mem_append.mp hrow
    · exact hinv.kept row hold
    · rw [List.mem_singleton.mp hnew]
      exact .inr hrole
  past := hinv.past
  sessions := by
    intro g hg
    obtain ⟨user, huser, hsession⟩ := hinv.sessions g hg
    rw [users_append]
    exact ⟨user, List.mem_append_left _ huser, hsession⟩

/-- A response is added that belongs to a session. -/
theorem Inv.grant (hinv : Inv v passwords jwt config rows s) {user : User} {origin : Origin}
    (huser : user ∈ s.users)
    (hsession : let g := grantFor jwt config user s.now origin
      Session v passwords jwt config (g :: s.grants) user g) :
    Inv v passwords jwt config rows
      { s with grants := grantFor jwt config user s.now origin :: s.grants } where
  ids := hinv.ids
  kept := hinv.kept
  past := by
    intro g hg
    obtain rfl | hold := List.mem_cons.mp hg
    · exact Nat.le_refl _
    · exact hinv.past g hold
  sessions := by
    intro g hg
    obtain rfl | hold := List.mem_cons.mp hg
    · exact ⟨user, huser, hsession⟩
    · obtain ⟨other, hother, hsession⟩ := hinv.sessions g hold
      exact ⟨other, hother, hsession.mono fun _ => List.mem_cons_of_mem _⟩

theorem Inv.user_unique (hinv : Inv v passwords jwt config rows s) {user user' : User}
    (hu : user ∈ s.users) (hu' : user' ∈ s.users) (hid : user.id = user'.id) : user = user' :=
  List.inj_on_of_nodup_map hinv.ids hu hu' hid

/-- Every request keeps the invariant. -/
theorem Inv.after (hinv : Inv v passwords jwt config rows s) (hjwt : jwt.Signs)
    (hsecrets : config.atSecret ≠ config.rtSecret) {l : Label}
    (hshown : ∀ token, l = .refresh (some token) → Presentable jwt config s.grants token) :
    Inv v passwords jwt config rows (s.after v passwords jwt config l) := by
  cases l with
  | signUp salt id createdAt body =>
    unfold State.after
    dsimp only
    split
    · rename_i saved hsignUp
      obtain ⟨hrole, hfree⟩ := signUpRow_ok hsignUp
      exact hinv.signUp hrole hfree
    · exact hinv
  | logIn body =>
    unfold State.after
    dsimp only
    split
    · rename_i response cookie hlogin
      obtain ⟨user, huser, hproves, rfl⟩ := login_ok hlogin
      exact hinv.grant huser (.logIn List.mem_cons_self hproves)
    · exact hinv
  | refresh cookie =>
    cases cookie with
    | none => exact hinv
    | some token =>
      unfold State.after
      dsimp only
      split
      · rename_i response hrefresh
        obtain ⟨payload, hverify, user, huser, hsub, rfl⟩ := refresh_ok hrefresh
        obtain ⟨user', huser', g, hsession, ⟨heq, -⟩ | ⟨-, rfl, halive, rfl⟩⟩ :=
          hinv.shown hjwt hsecrets (hshown token rfl) (.inr rfl) hverify
        · exact absurd heq.symm hsecrets
        · -- the token names the user whose session it continues
          have hid : user'.id = user.id := by
            rw [payloadOf, UUID.ofText_text] at hsub
            exact Option.some.inj hsub
          rw [hinv.user_unique huser' huser hid] at hsession
          exact hinv.grant huser (.refresh (hsession.mono fun _ => List.mem_cons_of_mem _)
            List.mem_cons_self (hinv.past g hsession.mem) halive)
      · exact hinv
  | wait seconds =>
    exact { hinv with past := fun g hg => Nat.le_add_right_of_le (hinv.past g hg) }

theorem reachable_inv (hjwt : jwt.Signs) (hsecrets : config.atSecret ≠ config.rtSecret)
    (hids : ((accounts rows).map (·.id)).Nodup)
    {ok : State → Label → Prop} (h : (system v passwords jwt config rows).Reach ok s) :
    Inv v passwords jwt config rows s := by
  refine h.invariant ?_ ?_
  · rintro s ⟨rfl, hnone⟩
    have hempty : ∀ g, g ∉ s.grants := by
      rw [hnone]
      exact fun _ => List.not_mem_nil
    exact ⟨hids, fun row hrow => .inl hrow, fun g hg => absurd hg (hempty g),
      fun g hg => absurd hg (hempty g)⟩
  · rintro s l _ - hinv - ⟨hshown, rfl⟩
    exact hinv.after hjwt hsecrets hshown

end Invariant

/-! ## Who is let in -/

section Admission

variable {v : Validator} {passwords : PasswordService} {jwt : JwtService String}
variable {config : JwtConfig} {rows : List SavedUser} {s : State}

/-- What the guards let through has passed both of them. -/
theorem guards_ok {Token : Type} {jwt : JwtService Token} {now : Nat} {context : ExecutionContext}
    {token : Option Token} {user : Option JwtPayloadDto}
    (h : guards jwt config now context token = .ok user) :
    JwtAuthGuard.canActivate jwt config now context token = .ok user ∧
      RolesGuard.canActivate context user = true := by
  unfold guards at h
  cases hguard : JwtAuthGuard.canActivate jwt config now context token with
  | error e =>
    rw [hguard] at h
    cases h
  | ok user' =>
    simp only [hguard, bind, Except.bind, pure, Except.pure] at h
    split at h
    · rename_i hroles
      cases h
      exact ⟨rfl, hroles⟩
    · cases h

/-- An access token that has not expired gets its user wherever the roles of the route allow. -/
theorem guards_accessToken (hjwt : jwt.Signs) {user : User} {signedAt now : Nat}
    {context : ExecutionContext} (halive : now < signedAt + config.atMaxAgeS)
    (hpublic : ¬ context.Public)
    (hroles : RolesGuard.canActivate context (some (dtoOf user)) = true) :
    guards jwt config now context
        (some (prepareTokenResponse jwt config signedAt user).accessToken) =
      .ok (some (dtoOf user)) := by
  have hverified : Verified jwt config now
      (some (prepareTokenResponse jwt config signedAt user).accessToken)
      (payloadOf user signedAt config.atMaxAgeS) := by
    rw [Verified, Option.bind_some, prepareTokenResponse, hjwt.verify_sign, if_pos halive]
    rfl
  have hguard := JwtAuthGuard.canActivate_ok.mpr (.inr ⟨hpublic, _, hverified, rfl⟩)
  unfold guards
  rw [hguard]
  simp only [bind, Except.bind, pure, Except.pure]
  exact if_pos hroles

theorem meRoute_not_public : ¬ meRoute.Public := by
  unfold ExecutionContext.Public
  decide

/-- Whoever is let in on a route that is not public has a session: somebody has logged in with the
password of the account, each token since then was fetched before the one it was fetched with had
expired, and so is the one that was shown.  The handler gets the id, the email and the role of that
account. -/
theorem admitted_has_session (hjwt : jwt.Signs) (hsecrets : config.atSecret ≠ config.rtSecret)
    (hids : ((accounts rows).map (·.id)).Nodup)
    (hr : (system v passwords jwt config rows).Reach Transition.System.anyStep s)
    {context : ExecutionContext} {token : String} {user? : Option JwtPayloadDto}
    (hshown : Presentable jwt config s.grants token) (hpublic : ¬ context.Public)
    (hguards : guards jwt config s.now context (some token) = .ok user?) :
    ∃ user ∈ s.users, ∃ g, Session v passwords jwt config s.grants user g ∧
      token = g.response.accessToken ∧ s.now < g.now + config.atMaxAgeS ∧
      user? = some (dtoOf user) := by
  obtain ⟨hpub, -⟩ | ⟨-, payload, hverified, rfl⟩ :=
    JwtAuthGuard.canActivate_ok.mp (guards_ok hguards).1
  · exact absurd hpub hpublic
  · have hinv := reachable_inv hjwt hsecrets hids hr
    obtain ⟨user, huser, g, hsession, ⟨-, rfl, halive, rfl⟩ | ⟨heq, -⟩⟩ :=
      hinv.shown hjwt hsecrets hshown (.inl rfl) hverified
    · exact ⟨user, huser, g, hsession, rfl, halive, rfl⟩
    · exact absurd heq hsecrets

/-- Only accounts that were administrators from the start get to the debug route, whoever signs up,
logs in or refreshes, and with whatever token. -/
theorem debug_admits_initial_admins (hjwt : jwt.Signs)
    (hsecrets : config.atSecret ≠ config.rtSecret) (hids : ((accounts rows).map (·.id)).Nodup)
    (hr : (system v passwords jwt config rows).Reach Transition.System.anyStep s)
    {token : String} (hshown : Presentable jwt config s.grants token)
    (hadmitted : Admitted jwt config s.now processOrderRoute (some token)) :
    ∃ row ∈ rows, row.role = .admin ∧
      ∃ g, Session v passwords jwt config s.grants row.toUser g ∧
        token = g.response.accessToken := by
  obtain ⟨user?, hguards⟩ := hadmitted
  obtain ⟨hauth, hroles⟩ := guards_ok hguards
  obtain ⟨role, hrole, payload, rfl, hmem⟩ := RolesGuard.canActivate_true.mp hroles [.admin] rfl
  rw [List.mem_singleton.mp hrole] at hmem
  obtain ⟨-, hnone⟩ | ⟨-, verified, hverified, hpayload⟩ := JwtAuthGuard.canActivate_ok.mp hauth
  · cases hnone
  · have hinv := reachable_inv hjwt hsecrets hids hr
    obtain ⟨user, huser, g, hsession, ⟨-, rfl, halive, rfl⟩ | ⟨heq, -⟩⟩ :=
      hinv.shown hjwt hsecrets hshown (.inl rfl) hverified
    · rw [Option.some.inj hpayload] at hmem
      have hadmin : user.role = .admin := (List.mem_singleton.mp hmem).symm
      obtain ⟨row, hrow, rfl⟩ := List.mem_map.mp huser
      obtain hstart | hrole := hinv.kept row hrow
      · exact ⟨row, hstart, hadmin, g, hsession, rfl⟩
      · rw [hrole] at hadmin
        cases hadmin
    · exact absurd heq hsecrets

/-- `GET /users/me` answers 401, or it answers the row of the account whose session the token belongs
to: never 404, never 500, and never an account other than the one of the token. -/
theorem getMe_answers (hjwt : jwt.Signs) (hsecrets : config.atSecret ≠ config.rtSecret)
    (hids : ((accounts rows).map (·.id)).Nodup)
    (hr : (system v passwords jwt config rows).Reach Transition.System.anyStep s)
    {token : String} (hshown : Presentable jwt config s.grants token) :
    getMe jwt config s.now (some token) s.rows = .error .unauthorized ∨
      ∃ row ∈ s.rows, (∃ g, Session v passwords jwt config s.grants row.toUser g ∧
          token = g.response.accessToken ∧ s.now < g.now + config.atMaxAgeS) ∧
        getMe jwt config s.now (some token) s.rows = .ok row.toResponse := by
  have hinv := reachable_inv hjwt hsecrets hids hr
  cases hverify : jwt.verify config.atSecret s.now token with
  | none =>
    left
    simp [getMe, guards, JwtAuthGuard.canActivate, authenticate, hverify, bind, Except.bind,
      getAllAndOverride, meRoute, Decorators.none, HttpError.toException]
  | some payload =>
    right
    obtain ⟨user, huser, g, hsession, ⟨-, rfl, halive, rfl⟩ | ⟨heq, -⟩⟩ :=
      hinv.shown hjwt hsecrets hshown (.inl rfl) hverify
    · obtain ⟨row, hrow, rfl⟩ := List.mem_map.mp huser
      refine ⟨row, hrow, ⟨g, hsession, rfl, halive⟩, ?_⟩
      have hguards : guards jwt config s.now meRoute (some g.response.accessToken) =
          .ok (some (dtoOf row.toUser)) := by
        rw [hsession.response_eq]
        exact guards_accessToken hjwt halive meRoute_not_public rfl
      simp only [getMe, hguards, bind, Except.bind, UsersController.me, dtoOf,
        findRowById_text hinv.ids hrow]
    · exact absurd heq hsecrets

end Admission

/-! ## A run with tokens that are texts -/

/-- A text in a list of texts: each character behind a sign, and a stop. -/
def quote : List Char → List Char
  | [] => ['.']
  | c :: cs => '+' :: c :: quote cs

def unquote : List Char → Option (List Char × List Char)
  | '+' :: c :: rest => (unquote rest).map fun (cs, rest) => (c :: cs, rest)
  | '.' :: rest => some ([], rest)
  | _ => none

def unquoteAll : Nat → List Char → Option (List (List Char))
  | 0, _ => some []
  | n + 1, cs => do
    let (first, rest) ← unquote cs
    let others ← unquoteAll n rest
    return first :: others

theorem unquote_quote (cs rest : List Char) : unquote (quote cs ++ rest) = some (cs, rest) := by
  induction cs with
  | nil => rfl
  | cons c cs ih => rw [quote, List.cons_append, List.cons_append, unquote, ih, Option.map_some]

theorem unquoteAll_quote (texts : List (List Char)) :
    unquoteAll texts.length (texts.flatMap quote) = some texts := by
  induction texts with
  | nil => rfl
  | cons cs texts ih =>
    rw [List.length_cons, List.flatMap_cons, unquoteAll, unquote_quote]
    simp only [Option.bind_eq_bind, Option.bind_some, ih, Option.pure_def]

def roleSign : UserRole → Char
  | .user => 'u'
  | .admin => 'a'

def signRole (c : Char) : UserRole := if c = 'a' then .admin else .user

/-- A token library whose tokens write out what was signed, numbers as so many strokes. -/
def textJwt : JwtService String where
  sign := fun secret expiresIn now dto => String.ofList ([secret.toList, List.replicate now '|',
    List.replicate (now + expiresIn) '|', dto.sub.toList, dto.email.toList,
    dto.roles.map roleSign].flatMap quote)
  verify := fun secret now token =>
    match unquoteAll 6 token.toList with
    | some [signed, iat, exp, sub, email, roles] =>
      if signed = secret.toList ∧ now < exp.length then
        some { sub := String.ofList sub, iat := iat.length, exp := exp.length
               email := String.ofList email, roles := some (roles.map signRole) }
      else none
    | _ => none

theorem signRole_roleSign (role : UserRole) : signRole (roleSign role) = role := by
  cases role <;> rfl

theorem textJwt_verify (secret secret' : String) (expiresIn signedAt now : Nat)
    (dto : JwtPayloadDto) :
    textJwt.verify secret' now (textJwt.sign secret expiresIn signedAt dto) =
      if secret = secret' ∧ now < signedAt + expiresIn then
        some { sub := dto.sub, iat := signedAt, exp := signedAt + expiresIn, email := dto.email
               roles := some dto.roles }
      else none := by
  have hread := unquoteAll_quote [secret.toList, List.replicate signedAt '|',
    List.replicate (signedAt + expiresIn) '|', dto.sub.toList, dto.email.toList,
    dto.roles.map roleSign]
  have hroles : (dto.roles.map roleSign).map signRole = dto.roles := by
    rw [List.map_map]
    exact (List.map_congr_left fun role _ => signRole_roleSign role).trans (List.map_id _)
  simp only [List.length_cons, List.length_nil, Nat.zero_add, Nat.reduceAdd] at hread
  simp only [textJwt, String.toList_ofList, hread, hroles, List.length_replicate,
    String.ofList_toList, String.toList_inj]

theorem textJwt_signs : textJwt.Signs where
  verify_sign := fun secret expiresIn signedAt now dto => by
    rw [textJwt_verify]
    simp only [true_and]
  other_secret := fun secret secret' expiresIn signedAt now dto hne => by
    rw [textJwt_verify, if_neg fun h => hne h.1.symm]

/-- An administrator with a password of 13 characters. -/
def administrator : SavedUser where
  id := .ofNat 7
  email := "admin@mail.com"
  password := truncatingPasswords.hash "" "Strong-pass1*"
  role := .admin
  createdAt := 0

def administratorLogIn : Json := credentials "admin@mail.com" "Strong-pass1*"

/-- Ten seconds after the log in. -/
def loggedIn : State where
  rows := [administrator]
  now := 10
  grants := [grantFor textJwt docConfig administrator.toUser 0 (.logIn administratorLogIn)]

theorem administrator_proves :
    Proves strongValidator truncatingPasswords administratorLogIn administrator.toUser :=
  ⟨"Strong-pass1*", read_email (by decide +kernel) _, read_password logInPassword rfl _ rfl _,
    (truncatingPasswords_comparesFirst72 "" _ _).mpr rfl⟩

theorem loggedIn_reach {ok : State → Label → Prop}
    (hok : ∀ s l, (∀ cookie, l ≠ .refresh cookie) → ok s l) :
    (system strongValidator truncatingPasswords textJwt docConfig [administrator]).Reach ok
      loggedIn := by
  let start : State := { rows := [administrator], now := 0, grants := [] }
  have hfind : UsersService.findByEmail administrator.email start.users =
      some administrator.toUser := by
    simp [UsersService.findByEmail, start, State.users, accounts]
  have hlogIn := State.after_logIn textJwt docConfig hfind administrator_proves
  have hstart : (system strongValidator truncatingPasswords textJwt docConfig
      [administrator]).Reach ok start := .init ⟨rfl, rfl⟩
  refine (hstart.step (l := .logIn administratorLogIn) (hok _ _ ?_) ⟨?_, hlogIn.symm⟩).step
    (l := .wait 10) (hok _ _ ?_) ⟨?_, rfl⟩
  all_goals
    intro _ h
    cases h

/-- The access token of the log in. -/
def administratorToken : String :=
  (prepareTokenResponse textJwt docConfig 0 administrator.toUser).accessToken

theorem administratorToken_shown : Presentable textJwt docConfig loggedIn.grants administratorToken :=
  .inl ⟨_, List.mem_cons_self, .inl rfl⟩

theorem administrator_ids : ((accounts [administrator]).map (·.id)).Nodup :=
  List.nodup_singleton _

theorem administratorToken_guards {context : ExecutionContext} (hpublic : ¬ context.Public)
    (hroles : RolesGuard.canActivate context (some (dtoOf administrator.toUser)) = true) :
    guards textJwt docConfig loggedIn.now context (some administratorToken) =
      .ok (some (dtoOf administrator.toUser)) :=
  guards_accessToken textJwt_signs (show 10 < 0 + 900 by decide) hpublic hroles

theorem admitted_has_session_logIn :
    ∃ user ∈ loggedIn.users, ∃ g, Session strongValidator truncatingPasswords textJwt docConfig
        loggedIn.grants user g ∧ administratorToken = g.response.accessToken ∧
      loggedIn.now < g.now + docConfig.atMaxAgeS ∧
      some (dtoOf administrator.toUser) = some (dtoOf user) :=
  admitted_has_session textJwt_signs (by decide) administrator_ids
    (loggedIn_reach fun _ _ _ => trivial) administratorToken_shown meRoute_not_public
    (administratorToken_guards meRoute_not_public rfl)

theorem debug_admits_initial_admins_logIn :
    ∃ row ∈ [administrator], row.role = .admin ∧
      ∃ g, Session strongValidator truncatingPasswords textJwt docConfig loggedIn.grants row.toUser g ∧
        administratorToken = g.response.accessToken :=
  debug_admits_initial_admins textJwt_signs (by decide) administrator_ids
    (loggedIn_reach fun _ _ _ => trivial) administratorToken_shown
    ⟨_, administratorToken_guards (by unfold ExecutionContext.Public; decide) (by decide)⟩

theorem getMe_answers_logIn :
    getMe textJwt docConfig loggedIn.now (some administratorToken) loggedIn.rows =
        .error .unauthorized ∨
      ∃ row ∈ loggedIn.rows, (∃ g, Session strongValidator truncatingPasswords textJwt docConfig
          loggedIn.grants row.toUser g ∧ administratorToken = g.response.accessToken ∧
          loggedIn.now < g.now + docConfig.atMaxAgeS) ∧
        getMe textJwt docConfig loggedIn.now (some administratorToken) loggedIn.rows =
          .ok row.toResponse :=
  getMe_answers textJwt_signs (by decide) administrator_ids
    (loggedIn_reach fun _ _ _ => trivial) administratorToken_shown

end Sessions

end Ecommerce.Auth
