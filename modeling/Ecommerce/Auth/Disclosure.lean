import Ecommerce.Auth.AuthController

/-!
# Disclosure — what a failed request tells about the secret it came with

Two requests that differ in their password or refresh token only are answered alike when the
pipe or the database turns them down.  Every domain error copies the secret into its details.
-/

namespace Ecommerce.Auth

open Users HttpExceptionFilter

variable {v : Validator} {passwords : PasswordService} {jwt : JwtService String} {config : JwtConfig}
variable {toText : Json → String} {correlationId : String} {users : List User}

/-! ## Log in -/

/-- What a log in with this email is refused with, whatever the password. -/
def refusal (email : String) (users : List User) (fields : List (String × Json)) : DomainError :=
  match UsersService.findByEmail email users with
  | none => .entityNotFound "User" fields
  | some _ => .incorrectPassword fields

theorem refusal_inj {email : String} {fields fields' : List (String × Json)} :
    refusal email users fields = refusal email users fields' ↔ fields = fields' := by
  unfold refusal
  split
  · simp [DomainError.entityNotFound]
  · simp [DomainError.incorrectPassword]

theorem refusal_code (email : String) (users : List User) (fields : List (String × Json)) :
    (refusal email users fields).code ≠ "REQUEST_FAILED" := by
  unfold refusal
  split
  · exact (by decide : "CANNOT_FIND_ENTITY" ≠ "REQUEST_FAILED")
  · exact (by decide : "INCORRECT_PASSWORD" ≠ "REQUEST_FAILED")

theorem AuthService.login_error {now : Nat} {logInDto : LogInDto} {err : Exception}
    (h : AuthService.login passwords jwt config now logInDto users = .error err) :
    err = .domain (refusal logInDto.email users logInDto.fields) := by
  cases hfind : UsersService.findByEmail logInDto.email users with
  | none =>
    simp only [AuthService.login, hfind] at h
    simp only [refusal, hfind]
    exact (Except.error.inj h).symm
  | some user =>
    simp only [AuthService.login, hfind] at h
    simp only [refusal, hfind]
    split at h
    · cases h
    · exact (Except.error.inj h).symm

/-- A failed log in was turned down by the pipe, or refused with its own dto. -/
theorem login_error_cases {now : Nat} {body : Json} {err : Exception}
    (h : login v passwords jwt config now body users = .error err) :
    (LogInDto.problems v body ≠ [] ∧ err = .invalid (LogInDto.problems v body)) ∨
    (LogInDto.problems v body = [] ∧ ∃ email password, (emailProperty v).read body = some email ∧
      logInPassword.read body = some password ∧
      err = .domain (refusal email users (LogInDto.fields { email, password }))) := by
  unfold login LogInDto.ofJson at h
  cases hread : readBody v logInPassword body with
  | error e =>
    -- the pipe turns the body down
    obtain ⟨rfl, hne⟩ := readBody_error hread
    rw [hread] at h
    cases h
    exact .inl ⟨hne, rfl⟩
  | ok p =>
    obtain ⟨hemail, hpassword⟩ := readBody_ok hread
    have hnone : LogInDto.problems v body = [] := by
      rw [LogInDto.problems, ((emailProperty v).problems_eq_nil body).mpr ⟨_, hemail⟩,
        (logInPassword.problems_eq_nil body).mpr ⟨_, hpassword⟩, List.append_nil]
    refine .inr ⟨hnone, p.1, p.2, hemail, hpassword, ?_⟩
    rw [hread] at h
    -- the service is asked with what the pipe has let through
    cases hlogin :
      AuthService.login passwords jwt config now { email := p.1, password := p.2 } users with
    | error e =>
      rw [← AuthService.login_error hlogin]
      simp only [bind, Except.bind, pure, Except.pure, hlogin] at h
      exact (Except.error.inj h).symm
    | ok result =>
      simp only [bind, Except.bind, pure, Except.pure, hlogin] at h
      cases h

theorem logIn_told_iff {now now' : Nat} {body body' : Json} {err err' : Exception}
    (hemail : body.get? "email" = body'.get? "email")
    (h : login v passwords jwt config now body users = .error err)
    (h' : login v passwords jwt config now' body' users = .error err') :
    catchException toText correlationId err = catchException toText correlationId err' ↔
      body.get? "password" = body'.get? "password" ∨
        (LogInDto.problems v body ≠ [] ∧
          LogInDto.problems v body = LogInDto.problems v body') := by
  have hread : (emailProperty v).read body = (emailProperty v).read body' :=
    (emailProperty v).read_congr hemail
  -- the problems depend on the two properties only
  have hsame (hpw : body.get? "password" = body'.get? "password") :
      LogInDto.problems v body = LogInDto.problems v body' := by
    rw [LogInDto.problems, LogInDto.problems, TextProperty.problems, TextProperty.problems,
      TextProperty.problems, TextProperty.problems, hread, logInPassword.read_congr hpw]
  obtain ⟨hproblems, rfl⟩ | ⟨hnone, email, password, he, hp, rfl⟩ := login_error_cases h
  · obtain ⟨hproblems', rfl⟩ | ⟨hnone', email', password', he', hp', rfl⟩ := login_error_cases h'
    · -- both turned down by the pipe
      rw [catch_invalid_inj]
      constructor
      · exact fun heq => .inr ⟨hproblems, heq⟩
      · exact fun hcond => hcond.elim hsame (·.2)
    · -- one by the pipe and one by the service: their codes differ
      apply iff_of_false
      · intro heq
        rw [catch_invalid] at heq
        exact refusal_code _ _ _ (congrArg (·.body.code) heq).symm
      · rintro (hpw | ⟨-, heq⟩)
        · exact hproblems ((hsame hpw).trans hnone')
        · exact hproblems (heq.trans hnone')
  · obtain ⟨hproblems', rfl⟩ | ⟨hnone', email', password', he', hp', rfl⟩ := login_error_cases h'
    · apply iff_of_false
      · intro heq
        rw [catch_invalid] at heq
        exact refusal_code _ _ _ (congrArg (·.body.code) heq)
      · rintro (hpw | ⟨hproblems, -⟩)
        · exact hproblems' ((hsame hpw).symm.trans hnone)
        · exact hproblems hnone
    · -- both refused for the same email, each with its own password
      obtain rfl : email = email' := Option.some.inj (he.symm.trans (hread.trans he'))
      rw [catch_domain_inj, refusal_inj, or_iff_left fun hcond => hcond.1 hnone,
        show body.get? "password" = _ from TextProperty.get?_of_read hp,
        show body'.get? "password" = _ from TextProperty.get?_of_read hp']
      simp [LogInDto.fields]

/-! ## Sign-up -/

theorem signUp_error_cases {salt : String} {id : UUID} {createdAt : Date} {body : Json}
    {err : Exception} {password : String} (hpassword : (signUpPassword v).read body = some password)
    (h : signUp v passwords salt id createdAt body users = .error err) :
    ((emailProperty v).read body = none ∧
      err = .invalid ((emailProperty v).problems body ++ (signUpPassword v).problems body)) ∨
    ∃ email, (emailProperty v).read body = some email ∧
      ((maxLength < email.length ∧ err = .other) ∨
        (email.length ≤ maxLength ∧
          err = .domain (.duplicateEntityCreation "User"
            (SignUpDto.fields { email, password })))) := by
  unfold signUp SignUpDto.ofJson at h
  cases hemail : (emailProperty v).read body with
  | none =>
    have hread : readBody v (signUpPassword v) body =
        .error (.invalid ((emailProperty v).problems body ++ (signUpPassword v).problems body)) := by
      rw [readBody, hemail]
    rw [hread] at h
    exact .inl ⟨rfl, (Except.error.inj h).symm⟩
  | some email =>
    refine .inr ⟨email, rfl, ?_⟩
    simp only [readBody_of_read hemail hpassword, bind, Except.bind, pure, Except.pure,
      AuthService.signUp] at h
    -- the hash always fits its column, so only the email can be too long
    have hhash : (passwords.hash salt password).length ≤ maxLength := by
      rw [passwords.hash_length]
      decide
    obtain ⟨hlong, hcreate⟩ | ⟨hfits, -, hcreate⟩ | ⟨-, saved, hcreate⟩ :=
      UsersService.create_cases id createdAt { email, password } hhash users
    · rw [hcreate] at h
      exact .inl ⟨hlong, (Except.error.inj h).symm⟩
    · rw [hcreate] at h
      exact .inr ⟨hfits, (Except.error.inj h).symm⟩
    · rw [hcreate] at h
      cases h

theorem signUp_told_iff {salt salt' : String} {id id' : UUID} {createdAt createdAt' : Date}
    {body body' : Json} {err err' : Exception} {password password' : String}
    (hemail : body.get? "email" = body'.get? "email")
    (hpassword : (signUpPassword v).read body = some password)
    (hpassword' : (signUpPassword v).read body' = some password')
    (h : signUp v passwords salt id createdAt body users = .error err)
    (h' : signUp v passwords salt' id' createdAt' body' users = .error err') :
    catchException toText correlationId err = catchException toText correlationId err' ↔
      password = password' ∨ ∀ email, (emailProperty v).read body = some email →
        maxLength < email.length := by
  have hread : (emailProperty v).read body = (emailProperty v).read body' :=
    (emailProperty v).read_congr hemail
  obtain ⟨hnone, rfl⟩ | ⟨email, he, hcase⟩ := signUp_error_cases hpassword h
  · obtain ⟨-, rfl⟩ | ⟨email', he', -⟩ := signUp_error_cases hpassword' h'
    · -- the email is refused in both, and the passwords have no problems
      rw [catch_invalid_inj, TextProperty.problems, TextProperty.problems, TextProperty.problems,
        TextProperty.problems, hread, hpassword, hpassword']
      apply iff_of_true rfl
      refine .inr fun email he => ?_
      rw [← hread, hnone] at he
      cases he
    · rw [← hread, hnone] at he'
      cases he'
  · obtain ⟨hnone', rfl⟩ | ⟨email', he', hcase'⟩ := signUp_error_cases hpassword' h'
    · rw [hread, hnone'] at he
      cases he
    · -- the same email is too long in both, or taken in both
      obtain rfl : email = email' := Option.some.inj (he.symm.trans (hread.trans he'))
      rw [he]
      obtain ⟨hlong, rfl⟩ | ⟨hfits, rfl⟩ := hcase
      · obtain ⟨-, rfl⟩ | ⟨hfits', -⟩ := hcase'
        · exact iff_of_true rfl (.inr fun _ heq => Option.some.inj heq ▸ hlong)
        · omega
      · obtain ⟨hlong', -⟩ | ⟨-, rfl⟩ := hcase'
        · omega
        · rw [catch_domain_inj, or_iff_left fun hlong => absurd (hlong email rfl) (by omega)]
          simp [DomainError.duplicateEntityCreation, SignUpDto.fields]

/-! ## Refresh -/

theorem refresh_error_cases {now : Nat} {token : String} {payload : JwtPayload} {err : Exception}
    (hverify : jwt.verify config.rtSecret now token = some payload)
    (h : refresh jwt config now (some token) users = .error err) :
    (UUID.ofText payload.sub = none ∧ err = .other) ∨
    (UUID.ofText payload.sub ≠ none ∧
      err = .domain (.entityNotFound "User"
        (payload.fields ++ [("refreshToken", .str token)]))) := by
  have hguard : cookieAuthenticate jwt config now (some token) = .ok (token, payload) := by
    rw [cookieAuthenticate, Option.bind_some, hverify]
    rfl
  simp only [refresh, hguard, bind, Except.bind, AuthService.refreshAccessToken,
    UsersService.findById] at h
  cases hsub : UUID.ofText payload.sub with
  | none =>
    rw [hsub] at h
    exact .inl ⟨rfl, (Except.error.inj h).symm⟩
  | some id =>
    refine .inr ⟨by simp, ?_⟩
    simp only [hsub] at h
    -- a uuid that names a user would have been answered
    split at h
    · rename_i hfind
      cases hfind
    · exact (Except.error.inj h).symm
    · cases h

theorem refresh_told_iff {now now' : Nat} {token token' : String} {payload : JwtPayload}
    {err err' : Exception}
    (hverify : jwt.verify config.rtSecret now token = some payload)
    (hverify' : jwt.verify config.rtSecret now' token' = some payload)
    (h : refresh jwt config now (some token) users = .error err)
    (h' : refresh jwt config now' (some token') users = .error err') :
    catchException toText correlationId err = catchException toText correlationId err' ↔
      token = token' ∨ UUID.ofText payload.sub = none := by
  obtain ⟨hnone, rfl⟩ | ⟨hsub, rfl⟩ := refresh_error_cases hverify h
  · obtain ⟨-, rfl⟩ | ⟨hsub', -⟩ := refresh_error_cases hverify' h'
    · exact iff_of_true rfl (.inr hnone)
    · exact absurd hnone hsub'
  · obtain ⟨hnone', -⟩ | ⟨-, rfl⟩ := refresh_error_cases hverify' h'
    · exact absurd hnone' hsub
    · rw [catch_domain_inj, or_iff_left hsub]
      simp [DomainError.entityNotFound]

/-! ## All three -/

variable (v passwords jwt config toText correlationId)

/-- Two failed requests that differ in their secret are answered alike exactly when the secrets are
equal or the failure comes from the pipe or from the database: for a log in, the pipe says the same
of both bodies; for a sign-up, the email is refused or too long for its column; for a refresh, the
id in the payload is not a uuid. -/
theorem failed_responses_equal_iff :
    (∀ users now now' body body' err err', body.get? "email" = body'.get? "email" →
      login v passwords jwt config now body users = .error err →
      login v passwords jwt config now' body' users = .error err' →
      (catchException toText correlationId err = catchException toText correlationId err' ↔
        body.get? "password" = body'.get? "password" ∨
          (LogInDto.problems v body ≠ [] ∧
            LogInDto.problems v body = LogInDto.problems v body'))) ∧
    (∀ users salt salt' id id' createdAt createdAt' body body' password password' err err',
      body.get? "email" = body'.get? "email" →
      (signUpPassword v).read body = some password →
      (signUpPassword v).read body' = some password' →
      signUp v passwords salt id createdAt body users = .error err →
      signUp v passwords salt' id' createdAt' body' users = .error err' →
      (catchException toText correlationId err = catchException toText correlationId err' ↔
        password = password' ∨ ∀ email, (emailProperty v).read body = some email →
          maxLength < email.length)) ∧
    (∀ users now now' token token' payload err err',
      jwt.verify config.rtSecret now token = some payload →
      jwt.verify config.rtSecret now' token' = some payload →
      refresh jwt config now (some token) users = .error err →
      refresh jwt config now' (some token') users = .error err' →
      (catchException toText correlationId err = catchException toText correlationId err' ↔
        token = token' ∨ UUID.ofText payload.sub = none)) := by
  refine ⟨?_, ?_, ?_⟩
  · intro users now now' body body' err err' hemail h h'
    exact logIn_told_iff hemail h h'
  · intro users salt salt' id id' createdAt createdAt' body body' password password' err err' hemail
      hpassword hpassword' h h'
    exact signUp_told_iff hemail hpassword hpassword' h h'
  · intro users now now' token token' payload err err' hverify hverify' h h'
    exact refresh_told_iff hverify hverify' h h'

/-! ## A log in with an unknown email -/

def docValidator : Validator where
  isEmail := fun _ => true
  isStrongPassword := fun _ => true

def docPasswords : PasswordService where
  hash := fun _ _ => String.ofList (List.replicate 60 '0')
  verify := fun _ _ => false
  hash_length := by
    intro salt value
    rw [String.length_ofList, List.length_replicate]

def docJwt : JwtService String where
  sign := fun _ _ _ payload => payload.sub
  verify := fun _ _ _ => none

def docConfig : JwtConfig where
  atSecret := "at"
  atMaxAgeS := 900
  rtSecret := "rt"
  rtMaxAgeS := 604800

def docLogIn (password : String) : Except Exception (TokenResponseDto String × RefreshTokenCookie) :=
  login docValidator docPasswords docJwt docConfig 0
    (.obj [("email", .str "user@mail.com"), ("password", .str password)]) []

/-- Both log ins end with 404 and the same code; each response contains the password sent. -/
theorem unknown_email_echoes_password :
    ∃ err err', docLogIn "Strong-pass1*" = .error err ∧ docLogIn "Strong-pass2*" = .error err' ∧
      (catchException (fun _ => "") "1" err).status = 404 ∧
      (catchException (fun _ => "") "1" err').status = 404 ∧
      catchException (fun _ => "") "1" err ≠ catchException (fun _ => "") "1" err' := by
  refine ⟨_, _, rfl, rfl, rfl, rfl, ?_⟩
  show ¬ catchException _ _ (.domain _) = catchException _ _ (.domain _)
  rw [catch_domain_inj]
  simp [DomainError.entityNotFound, LogInDto.fields]

/-- Every refresh token is that of a user who no longer exists. -/
def goneJwt : JwtService String where
  sign := fun _ _ _ payload => payload.sub
  verify := fun _ _ _ => some ⟨(UUID.ofNat 1).text, 0, 1, "user@mail.com", some [.user]⟩

def longEmail : String := String.ofList (List.replicate 101 'a')

def docBody (email password : String) : Json :=
  .obj [("email", .str email), ("password", .str password)]

def longSignUp (password : String) : Except Exception (List User × UserResponseDto) :=
  signUp docValidator docPasswords "" (.ofNat 2) 0 (docBody longEmail password) []

/-- Of a log in and of a refresh each response tells the secret; that of a sign-up whose email is too
long does not. -/
theorem failed_responses_told :
    (∃ err err', docLogIn "Strong-pass1*" = .error err ∧ docLogIn "Strong-pass2*" = .error err' ∧
      catchException (fun _ => "") "1" err ≠ catchException (fun _ => "") "1" err') ∧
    (∃ err err', longSignUp "Strong-pass1*" = .error err ∧ longSignUp "Strong-pass2*" = .error err' ∧
      catchException (fun _ => "") "1" err = catchException (fun _ => "") "1" err') ∧
    (∃ err err', refresh goneJwt docConfig 0 (some "first") [] = .error err ∧
      refresh goneJwt docConfig 0 (some "second") [] = .error err' ∧
      catchException (fun _ => "") "1" err ≠ catchException (fun _ => "") "1" err') := by
  refine ⟨⟨_, _, rfl, rfl, ?_⟩, ⟨_, _, rfl, rfl, ?_⟩, _, _, rfl, rfl, ?_⟩
  · rw [ne_eq, (failed_responses_equal_iff docValidator docPasswords docJwt docConfig (fun _ => "")
      "1").1 [] 0 0 (docBody "user@mail.com" "Strong-pass1*")
      (docBody "user@mail.com" "Strong-pass2*") _ _ rfl rfl rfl]
    rintro (heq | ⟨hproblems, -⟩)
    · exact absurd (Json.str.inj (Option.some.inj heq)) (by decide)
    · exact hproblems rfl
  · rw [(failed_responses_equal_iff docValidator docPasswords docJwt docConfig (fun _ => "")
      "1").2.1 [] "" "" (.ofNat 2) (.ofNat 2) 0 0 (docBody longEmail "Strong-pass1*")
      (docBody longEmail "Strong-pass2*") "Strong-pass1*" "Strong-pass2*" _ _ rfl rfl rfl rfl rfl]
    refine .inr fun email hemail => ?_
    obtain rfl := Option.some.inj hemail
    decide
  · rw [ne_eq, (failed_responses_equal_iff docValidator docPasswords goneJwt docConfig (fun _ => "")
      "1").2.2 [] 0 0 "first" "second" _ _ _ rfl rfl rfl rfl]
    decide

end Ecommerce.Auth
