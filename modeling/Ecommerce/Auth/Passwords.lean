import Ecommerce.Auth.Disclosure

/-!
# Passwords — which passwords log in to an account

A candidate is compared with the hash of the password on the first 72 bytes of their encodings, and
no check bounds the length of a password.
-/

namespace Ecommerce.Auth

open Users

/-- The UTF-8 encoding. -/
def utf8 (s : String) : List UInt8 := s.toList.flatMap String.utf8EncodeChar

/-- What bcrypt tells of two passwords. -/
def PasswordService.ComparesFirst72 (passwords : PasswordService) : Prop :=
  ∀ salt password candidate, passwords.verify (passwords.hash salt password) candidate = true ↔
    (utf8 password).take 72 = (utf8 candidate).take 72

/-- A request for one of the two routes. -/
inductive Request where
  | signUp (salt : String) (id : UUID) (createdAt : Date) (body : Json)
  | login (now : Nat) (body : Json)

section Accounts

variable (v : Validator) (passwords : PasswordService)

/-- The table after a request; a log in only reads it. -/
def serve (users : List User) : Request → List User
  | .signUp salt id createdAt body =>
    match signUp v passwords salt id createdAt body users with
    | .ok (users, _) => users
    | .error _ => users
  | .login _ _ => users

/-- The table after a run of requests. -/
def serveAll (users : List User) (requests : List Request) : List User :=
  requests.foldl (serve v passwords) users

end Accounts

section Laws

variable {v : Validator} {passwords : PasswordService} {jwt : JwtService String} {config : JwtConfig}
variable {users users' : List User} {salt : String} {id : UUID} {createdAt : Date} {body : Json}
variable {email : String}

theorem insert_ok {row saved : SavedUser} (h : Users.insert users row = .ok (users', saved)) :
    (∀ u ∈ users, u.email ≠ row.email) ∧ users' = users ++ [row.toUser] := by
  unfold Users.insert at h
  split at h
  · cases h
  · split at h
    · cases h
    · rename_i hfree
      obtain ⟨rfl, -⟩ := Prod.mk.inj (Except.ok.inj h)
      exact ⟨fun u hu heq => hfree ⟨u, hu, .inr heq⟩, rfl⟩

theorem create_ok {dto : SignUpDto} {hashed : String} {saved : SavedUser}
    (h : UsersService.create id createdAt dto hashed users = .ok (users', saved)) :
    (∀ u ∈ users, u.email ≠ dto.email) ∧
      users' = users ++ [{ id, email := dto.email, password := hashed, role := .user }] := by
  unfold UsersService.create at h
  dsimp only at h
  split at h
  · rename_i result hinsert
    cases h
    exact insert_ok hinsert
  · split at h <;> cases h

/-- A sign-up that succeeds adds the only account with its email. -/
theorem signUp_ok {response : UserResponseDto} {password : String}
    (hemail : (emailProperty v).read body = some email)
    (hpassword : (signUpPassword v).read body = some password)
    (h : signUp v passwords salt id createdAt body users = .ok (users', response)) :
    (∀ u ∈ users, u.email ≠ email) ∧ users' = users ++
      [{ id, email, password := passwords.hash salt password, role := .user }] := by
  unfold signUp SignUpDto.ofJson at h
  simp only [readBody_of_read hemail hpassword, bind, Except.bind, pure, Except.pure,
    AuthService.signUp] at h
  split at h
  · cases h
  · rename_i saved hcreate
    obtain ⟨rfl, -⟩ := Prod.mk.inj (Except.ok.inj h)
    exact create_ok hcreate

/-- The account a sign-up creates is the one its email finds. -/
theorem findByEmail_signUp {response : UserResponseDto} {password : String}
    (hemail : (emailProperty v).read body = some email)
    (hpassword : (signUpPassword v).read body = some password)
    (h : signUp v passwords salt id createdAt body users = .ok (users', response)) :
    UsersService.findByEmail email users' =
      some { id, email, password := passwords.hash salt password, role := .user } := by
  obtain ⟨hfree, rfl⟩ := signUp_ok hemail hpassword h
  rw [UsersService.findByEmail, List.find?_append,
    List.find?_eq_none.mpr fun u hu => by simpa using hfree u hu]
  simp

theorem signUp_appends {response : UserResponseDto}
    (h : signUp v passwords salt id createdAt body users = .ok (users', response)) :
    ∃ user, users' = users ++ [user] := by
  have hread : ∃ p, readBody v (signUpPassword v) body = .ok p := by
    unfold signUp SignUpDto.ofJson at h
    cases hread : readBody v (signUpPassword v) body with
    | ok p => exact ⟨p, rfl⟩
    | error err =>
      rw [hread] at h
      cases h
  obtain ⟨p, hread⟩ := hread
  obtain ⟨hemail, hpassword⟩ := readBody_ok hread
  exact ⟨_, (signUp_ok hemail hpassword h).2⟩

theorem signUp_succeeds {password : String} (hemail : (emailProperty v).read body = some email)
    (hpassword : (signUpPassword v).read body = some password)
    (hfits : email.length ≤ maxLength) (hfree : ∀ u ∈ users, u.id ≠ id ∧ u.email ≠ email) :
    ∃ users' response, signUp v passwords salt id createdAt body users = .ok (users', response) := by
  have hhash : (passwords.hash salt password).length ≤ maxLength := by
    rw [passwords.hash_length]
    decide
  obtain ⟨hlong, -⟩ | ⟨-, ⟨u, hu, htaken⟩, -⟩ | ⟨-, ⟨users', saved⟩, hcreate⟩ :=
    UsersService.create_cases id createdAt { email, password } hhash users
  · exact absurd hfits (Nat.not_le.mpr hlong)
  · exact (htaken.elim (hfree u hu).1 (hfree u hu).2).elim
  · refine ⟨users', ⟨saved.id, saved.email, saved.role, saved.createdAt⟩, ?_⟩
    unfold signUp SignUpDto.ofJson
    simp only [readBody_of_read hemail hpassword, bind, Except.bind, pure, Except.pure,
      AuthService.signUp, hcreate]

/-- The account of an email is the first one, whatever comes later. -/
theorem findByEmail_serve {user : User} (h : UsersService.findByEmail email users = some user)
    (r : Request) : UsersService.findByEmail email (serve v passwords users r) = some user := by
  cases r with
  | login now body => exact h
  | signUp salt id createdAt body =>
    unfold serve
    dsimp only
    split
    · rename_i users' response hsignUp
      obtain ⟨added, rfl⟩ := signUp_appends hsignUp
      unfold UsersService.findByEmail at h ⊢
      rw [List.find?_append, h, Option.some_or]
    · exact h

variable (v passwords)

theorem findByEmail_serveAll {user : User} (requests : List Request)
    (h : UsersService.findByEmail email users = some user) :
    UsersService.findByEmail email (serveAll v passwords users requests) = some user := by
  induction requests generalizing users with
  | nil => exact h
  | cons r requests ih => exact ih (findByEmail_serve h r)

variable (jwt config) (now : Nat)

/-- A log in to an account is decided by the comparison of the password with its hash. -/
theorem login_account {user : User} {candidate : String}
    (hfind : UsersService.findByEmail email users = some user)
    (hemail : (emailProperty v).read body = some email)
    (hcandidate : logInPassword.read body = some candidate) :
    if passwords.verify user.password candidate then
      ∃ response, login v passwords jwt config now body users = .ok response
    else
      login v passwords jwt config now body users =
        .error (.domain (.incorrectPassword (LogInDto.fields { email, password := candidate }))) := by
  unfold login LogInDto.ofJson
  simp only [readBody_of_read hemail hcandidate, bind, Except.bind, pure, Except.pure,
    AuthService.login, hfind]
  split
  · exact ⟨_, rfl⟩
  · rfl

end Laws

section Chosen

variable {v : Validator} {passwords : PasswordService} {jwt : JwtService String} {config : JwtConfig}

/-- After any run since the sign-up, the password that was chosen logs in and another one fails with
`IncorrectPasswordError`, exactly when the two differ within the first 72 bytes. -/
theorem only_chosen_password_iff (hbcrypt : passwords.ComparesFirst72)
    {users users' : List User} {salt : String} {id : UUID} {createdAt : Date} {body : Json}
    {response : UserResponseDto} {email password candidate : String}
    (hemail : (emailProperty v).read body = some email)
    (hpassword : (signUpPassword v).read body = some password)
    (hsignUp : signUp v passwords salt id createdAt body users = .ok (users', response))
    (requests : List Request) {now now' : Nat} {logIn logIn' : Json}
    (hlogIn : (emailProperty v).read logIn = some email ∧
      logInPassword.read logIn = some candidate)
    (hlogIn' : (emailProperty v).read logIn' = some email ∧
      logInPassword.read logIn' = some password) :
    (login v passwords jwt config now logIn (serveAll v passwords users' requests) =
        .error (.domain (.incorrectPassword (LogInDto.fields { email, password := candidate }))) ∧
      ∃ tokens, login v passwords jwt config now' logIn' (serveAll v passwords users' requests) =
        .ok tokens) ↔
    (utf8 password).take 72 ≠ (utf8 candidate).take 72 := by
  have hfind := findByEmail_signUp hemail hpassword hsignUp
  have hlater := findByEmail_serveAll v passwords requests hfind
  have hwith := login_account v passwords jwt config now hlater hlogIn.1 hlogIn.2
  have hown := login_account v passwords jwt config now' hlater hlogIn'.1 hlogIn'.2
  rw [if_pos ((hbcrypt ..).mpr rfl)] at hown
  rw [and_iff_left hown, ne_eq, ← hbcrypt salt password candidate]
  split at hwith
  · rename_i hverify
    obtain ⟨tokens, hok⟩ := hwith
    exact iff_of_false (by rw [hok]; exact fun h => by cases h) (not_not.mpr hverify)
  · rename_i hverify
    exact iff_of_true hwith hverify

end Chosen

/-! ## Hashes of 60 characters that tell 72 bytes apart -/

theorem toNat_ofNat {n : Nat} (h : n.isValidChar) : (Char.ofNat n).toNat = n := by
  rw [Char.ofNat, dif_pos h]
  rfl

/-- A byte or none as a digit to the base 257. -/
def digit : Option UInt8 → Nat
  | none => 0
  | some b => b.toNat + 1

theorem digit_lt (b : Option UInt8) : digit b < 257 := by
  cases b with
  | none => decide
  | some b => exact Nat.succ_lt_succ b.toNat_lt

theorem digit_inj {a b : Option UInt8} (h : digit a = digit b) : a = b := by
  cases a <;> cases b
  · rfl
  · cases h
  · cases h
  · exact congrArg some (UInt8.toNat_inj.mp (Nat.succ.inj h))

/-- Two digits as one character of the supplementary planes. -/
def pairChar (a b : Option UInt8) : Char := Char.ofNat (65536 + digit a * 257 + digit b)

theorem pairChar_inj {a b c d : Option UInt8} (h : pairChar a b = pairChar c d) :
    a = c ∧ b = d := by
  have hvalid : ∀ a b, (65536 + digit a * 257 + digit b).isValidChar := by
    intro a b
    have := digit_lt a
    have := digit_lt b
    right
    omega
  have hnat := congrArg Char.toNat h
  rw [pairChar, pairChar, toNat_ofNat (hvalid a b), toNat_ofNat (hvalid c d)] at hnat
  have hb := digit_lt b
  have hd := digit_lt d
  exact ⟨digit_inj (by omega), digit_inj (by omega)⟩

@[irreducible] def pack (bytes : List UInt8) : String :=
  String.ofList ((List.range 60).map fun i => pairChar bytes[2 * i]? bytes[2 * i + 1]?)

theorem pack_inj {bs bs' : List UInt8} (h : bs.length ≤ 120) (h' : bs'.length ≤ 120)
    (heq : pack bs = pack bs') : bs = bs' := by
  rw [pack, pack] at heq
  have hpairs := List.map_inj_left.mp (String.ofList_injective heq)
  refine List.ext_getElem? fun j => ?_
  by_cases hj : j < 120
  · obtain ⟨heven, hodd⟩ := pairChar_inj (hpairs (j / 2) (List.mem_range.mpr (by omega)))
    rcases Nat.mod_two_eq_zero_or_one j with hmod | hmod
    · rwa [show 2 * (j / 2) = j by omega] at heven
    · rwa [show 2 * (j / 2) + 1 = j by omega] at hodd
  · rw [List.getElem?_eq_none (by omega), List.getElem?_eq_none (by omega)]

theorem pack_length (bytes : List UInt8) : (pack bytes).length = 60 := by
  rw [pack, String.length_ofList, List.length_map, List.length_range]

def truncatingPasswords : PasswordService where
  hash := fun _ value => pack ((utf8 value).take 72)
  verify := fun hash candidate => hash = pack ((utf8 candidate).take 72)
  hash_length := fun _ _ => pack_length _

theorem truncatingPasswords_verify (salt password candidate : String) :
    truncatingPasswords.verify (truncatingPasswords.hash salt password) candidate =
      decide (pack ((utf8 password).take 72) = pack ((utf8 candidate).take 72)) := rfl

theorem truncatingPasswords_comparesFirst72 : truncatingPasswords.ComparesFirst72 := by
  intro salt password candidate
  have hshort : ∀ bytes : List UInt8, (bytes.take 72).length ≤ 120 := by
    intro bytes
    have := List.length_take_le 72 bytes
    omega
  rw [truncatingPasswords_verify, decide_eq_true_iff]
  constructor
  · exact pack_inj (hshort _) (hshort _)
  · intro h
    rw [h]

/-! ## Two passwords of 73 characters -/

/-- Accepts what the checks of the library accept with their defaults, up to the shape of an email. -/
def strongValidator : Validator where
  isEmail := fun s => s.toList.contains '@'
  isStrongPassword := fun s =>
    8 ≤ s.toList.length && s.toList.any Char.isLower && s.toList.any Char.isUpper &&
      s.toList.any Char.isDigit && s.toList.any fun c => !c.isAlphanum

/-- Four characters 18 times, and one more. -/
def longPassword (last : Char) : String :=
  String.ofList ((List.replicate 18 ['A', 'a', '1', '*']).flatten ++ [last])

def credentials (email password : String) : Json :=
  .obj [("email", .str email), ("password", .str password)]

theorem read_email {v : Validator} {email : String} (h : v.isEmail email = true)
    (password : String) : (emailProperty v).read (credentials email password) = some email := by
  show (if v.isEmail email = true then some email else none) = some email
  rw [if_pos h]

theorem read_password (c : TextProperty) (hname : c.name = "password") (password : String)
    (h : c.accepts password = true) (email : String) :
    c.read (credentials email password) = some password := by
  rw [TextProperty.read, hname]
  show (if c.accepts password = true then some password else none) = some password
  rw [if_pos h]

theorem utf8_longPassword (last : Char) : (utf8 (longPassword last)).take 72 =
    (List.replicate 18 ['A', 'a', '1', '*']).flatten.flatMap String.utf8EncodeChar := by
  rw [utf8, longPassword, String.toList_ofList, List.flatMap_append]
  exact List.take_left' (by decide +kernel)

theorem strong_longPassword : strongValidator.isStrongPassword (longPassword 'x') = true ∧
    strongValidator.isStrongPassword (longPassword 'y') = true := by
  simp only [strongValidator, longPassword, String.toList_ofList]
  decide +kernel

/-- An account is created with one password of 73 characters, and another one logs in to it. -/
theorem another_password_logs_in : ∃ users response tokens,
    (signUpPassword strongValidator).read (credentials "user@mail.com" (longPassword 'y')) =
      some (longPassword 'y') ∧
    longPassword 'x' ≠ longPassword 'y' ∧
    signUp strongValidator truncatingPasswords "" (.ofNat 7) 0
      (credentials "user@mail.com" (longPassword 'x')) [] = .ok (users, response) ∧
    login strongValidator truncatingPasswords docJwt docConfig 1
      (credentials "user@mail.com" (longPassword 'y')) users = .ok tokens := by
  have hmail : strongValidator.isEmail "user@mail.com" = true := by decide +kernel
  have hx := read_password (signUpPassword strongValidator) rfl (longPassword 'x')
    strong_longPassword.1 "user@mail.com"
  have hy := read_password (signUpPassword strongValidator) rfl (longPassword 'y')
    strong_longPassword.2 "user@mail.com"
  have hne : longPassword 'x' ≠ longPassword 'y' := by
    intro h
    have hlist := String.ofList_injective h
    rw [List.append_cancel_left_eq] at hlist
    exact absurd hlist (by decide)
  obtain ⟨users, response, hsignUp⟩ := signUp_succeeds (read_email hmail _) hx
    (by decide +kernel) (fun _ hu => absurd hu List.not_mem_nil)
  have hfind := findByEmail_signUp (read_email hmail (longPassword 'x')) hx hsignUp
  have hlogin := login_account strongValidator truncatingPasswords docJwt docConfig 1 hfind
    (read_email hmail (longPassword 'y')) (read_password logInPassword rfl _ rfl "user@mail.com")
  rw [if_pos ((truncatingPasswords_comparesFirst72 ..).mpr
    ((utf8_longPassword 'x').trans (utf8_longPassword 'y').symm))] at hlogin
  obtain ⟨tokens, hok⟩ := hlogin
  exact ⟨users, response, tokens, hy, hne, hsignUp, hok⟩

/-- Another user signs up in between; the password that was chosen logs in, and another one fails. -/
theorem chosen_password_logs_in : ∃ users response,
    signUp strongValidator truncatingPasswords "" (.ofNat 7) 0
      (credentials "user@mail.com" "Strong-pass1*") [] = .ok (users, response) ∧
    let later := serveAll strongValidator truncatingPasswords users
      [.signUp "" (.ofNat 8) 1 (credentials "other@mail.com" "Strong-pass2*")]
    login strongValidator truncatingPasswords docJwt docConfig 2
        (credentials "user@mail.com" "Strong-pass2*") later =
      .error (.domain (.incorrectPassword
        (LogInDto.fields { email := "user@mail.com", password := "Strong-pass2*" }))) ∧
    ∃ tokens, login strongValidator truncatingPasswords docJwt docConfig 3
      (credentials "user@mail.com" "Strong-pass1*") later = .ok tokens := by
  have hmail : strongValidator.isEmail "user@mail.com" = true := by decide +kernel
  have hemail := read_email hmail
  have hpassword := read_password (signUpPassword strongValidator) rfl "Strong-pass1*"
    (show strongValidator.isStrongPassword "Strong-pass1*" = true by decide +kernel)
    "user@mail.com"
  obtain ⟨users, response, hsignUp⟩ := signUp_succeeds (hemail _) hpassword (by decide +kernel)
    (fun _ hu => absurd hu List.not_mem_nil)
  refine ⟨users, response, hsignUp, ?_⟩
  exact (only_chosen_password_iff truncatingPasswords_comparesFirst72 (hemail _) hpassword hsignUp _
    ⟨hemail _, read_password logInPassword rfl _ rfl _⟩
    ⟨hemail _, read_password logInPassword rfl _ rfl _⟩).mpr (by decide +kernel)

end Ecommerce.Auth
