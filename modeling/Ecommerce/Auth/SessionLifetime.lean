import Ecommerce.Auth.Sessions

/-!
# Session lifetime — how long one log in lasts

A log in puts its refresh token into a cookie, a refresh does not: the new refresh token is in the
body of its response only.  So a browser is logged out for good when the token of its last log in
has expired, and a client that keeps the tokens of the bodies need never log in again.
-/

namespace Ecommerce.Auth.Sessions

open Users Transition.System

/-- A refresh comes with a cookie that a log in has set. -/
def fromLogInCookie (s : State) (l : Label) : Prop :=
  ∀ token, l = .refresh (some token) →
    ∃ g ∈ s.grants, (∃ body, g.origin = .logIn body) ∧ token = g.response.refreshToken

/-- Nobody logs in or signs up. -/
def withoutLogIn (_ : State) : Label → Prop
  | .refresh _ => True
  | .wait _ => True
  | _ => False

section Cookies

variable (v : Validator) (passwords : PasswordService) (jwt : JwtService String)
variable (config : JwtConfig)

/-- The user has logged in with the password, at most the lifetime of a refresh token before. -/
def LoggedInNear (grants : List Grant) (user : User) (now : Nat) : Prop :=
  ∃ before body, grantFor jwt config user before (.logIn body) ∈ grants ∧
    Proves v passwords body user ∧ now ≤ before + config.rtMaxAgeS

/-- Every grant is near a log in of its user. -/
def Near (s : State) : Prop :=
  ∀ g ∈ s.grants, ∃ user ∈ s.users, g.response = prepareTokenResponse jwt config g.now user ∧
    LoggedInNear v passwords jwt config s.grants user g.now

end Cookies

section Ends

variable {v : Validator} {passwords : PasswordService} {jwt : JwtService String}
variable {config : JwtConfig} {rows : List SavedUser} {s : State}

theorem LoggedInNear.cons {grants : List Grant} {user : User} {now : Nat} (g : Grant)
    (h : LoggedInNear v passwords jwt config grants user now) :
    LoggedInNear v passwords jwt config (g :: grants) user now := by
  obtain ⟨before, body, hmem, hproves, hnow⟩ := h
  exact ⟨before, body, List.mem_cons_of_mem _ hmem, hproves, hnow⟩

/-- A grant of a log in is the log in itself. -/
theorem Session.of_logIn {grants : List Grant} {user : User} {g : Grant}
    (h : Session v passwords jwt config grants user g) {body : Json}
    (horigin : g.origin = .logIn body) :
    grantFor jwt config user g.now (.logIn body) ∈ grants ∧ Proves v passwords body user := by
  cases h with
  | logIn hgrant hproves =>
    cases horigin
    exact ⟨hgrant, hproves⟩
  | refresh => cases horigin

theorem Near.grant (hnear : Near v passwords jwt config s) {user : User} {origin : Origin}
    (huser : user ∈ s.users)
    (hlogIn : LoggedInNear v passwords jwt config
      (grantFor jwt config user s.now origin :: s.grants) user s.now) :
    Near v passwords jwt config
      { s with grants := grantFor jwt config user s.now origin :: s.grants } := by
  intro g hg
  obtain rfl | hold := List.mem_cons.mp hg
  · exact ⟨user, huser, rfl, hlogIn⟩
  · obtain ⟨other, hother, hresponse, hlogged⟩ := hnear g hold
    exact ⟨other, hother, hresponse, hlogged.cons _⟩

/-- Every request keeps the grants near a log in, as long as refreshes come with its cookies. -/
theorem Near.after (hnear : Near v passwords jwt config s) (hjwt : jwt.Signs)
    (hsecrets : config.atSecret ≠ config.rtSecret)
    (hinv : Inv v passwords jwt config rows s) {l : Label} (hcookie : fromLogInCookie s l) :
    Near v passwords jwt config (s.after v passwords jwt config l) := by
  cases l with
  | signUp salt id createdAt body =>
    unfold State.after
    dsimp only
    split
    · intro g hg
      obtain ⟨user, huser, hrest⟩ := hnear g hg
      rw [users_append]
      exact ⟨user, List.mem_append_left _ huser, hrest⟩
    · exact hnear
  | logIn body =>
    unfold State.after
    dsimp only
    split
    · rename_i response cookie hlogin
      obtain ⟨user, huser, hproves, rfl⟩ := login_ok hlogin
      exact hnear.grant huser
        ⟨s.now, body, List.mem_cons_self, hproves, Nat.le_add_right _ _⟩
    · exact hnear
  | refresh cookie =>
    cases cookie with
    | none => exact hnear
    | some token =>
      unfold State.after
      dsimp only
      split
      · rename_i response hrefresh
        obtain ⟨payload, hverify, user, huser, hsub, rfl⟩ := refresh_ok hrefresh
        obtain ⟨g, hg, ⟨body, horigin⟩, rfl⟩ := hcookie token rfl
        obtain ⟨user', huser', hsession⟩ := hinv.sessions g hg
        rw [hsession.response_eq] at hverify
        obtain ⟨-, halive, rfl⟩ := verify_refreshToken hjwt hsecrets (.inr rfl) hverify
        have hid : user'.id = user.id := by
          rw [payloadOf, UUID.ofText_text] at hsub
          exact Option.some.inj hsub
        rw [hinv.user_unique huser' huser hid] at hsession
        obtain ⟨hgrant, hproves⟩ := hsession.of_logIn horigin
        exact hnear.grant huser
          ⟨g.now, body, List.mem_cons_of_mem _ hgrant, hproves, Nat.le_of_lt halive⟩
      · exact hnear
  | wait seconds => exact hnear

/-- In a run whose refreshes all come with a cookie that a log in has set, whoever is let in belongs
to a user who has logged in with the password within the lifetimes of the two tokens: no number of
refreshes makes a session last longer. -/
theorem cookie_session_ends (hjwt : jwt.Signs) (hsecrets : config.atSecret ≠ config.rtSecret)
    (hids : ((accounts rows).map (·.id)).Nodup)
    (hr : (system v passwords jwt config rows).Reach fromLogInCookie s)
    {context : ExecutionContext} {token : String} {user? : Option JwtPayloadDto}
    (hshown : Presentable jwt config s.grants token) (hpublic : ¬ context.Public)
    (hguards : guards jwt config s.now context (some token) = .ok user?) :
    ∃ user ∈ s.users, user? = some (dtoOf user) ∧
      ∃ before body, grantFor jwt config user before (.logIn body) ∈ s.grants ∧
        Proves v passwords body user ∧
        s.now < before + config.rtMaxAgeS + config.atMaxAgeS := by
  have hnear : Near v passwords jwt config s := by
    refine hr.invariant ?_ ?_
    · rintro s ⟨-, hnone⟩ g hg
      rw [hnone] at hg
      cases hg
    · rintro s l _ hr hnear hcookie ⟨-, rfl⟩
      exact hnear.after hjwt hsecrets (reachable_inv hjwt hsecrets hids hr) hcookie
  have hinv := reachable_inv hjwt hsecrets hids hr
  obtain ⟨hpub, -⟩ | ⟨-, payload, hverified, rfl⟩ :=
    JwtAuthGuard.canActivate_ok.mp (guards_ok hguards).1
  · exact absurd hpub hpublic
  · obtain ⟨user, huser, g, hsession, ⟨-, rfl, halive, rfl⟩ | ⟨heq, -⟩⟩ :=
      hinv.shown hjwt hsecrets hshown (.inl rfl) hverified
    · obtain ⟨user', huser', hresponse, before, body, hgrant, hproves, hbefore⟩ :=
        hnear g hsession.mem
      -- one response names one user
      have heq : user = user' := by
        refine hinv.user_unique huser huser' ?_
        have hpayload := hverified
        rw [Verified, Option.bind_some, hresponse] at hpayload
        obtain ⟨-, -, hpayload⟩ := verify_accessToken hjwt hsecrets (.inl rfl) hpayload
        have hsub : user.id.text = user'.id.text := congrArg JwtPayload.sub hpayload
        have hread := UUID.ofText_text user.id
        rw [hsub, UUID.ofText_text] at hread
        exact (Option.some.inj hread).symm
      subst heq
      exact ⟨user, huser, rfl, before, body, hgrant, hproves, by omega⟩
    · exact absurd heq hsecrets

end Ends

section Lasts

variable {v : Validator} {passwords : PasswordService} {jwt : JwtService String}
variable {config : JwtConfig} {rows : List SavedUser} {s : State}

theorem findById_text (hinv : Inv v passwords jwt config rows s) {user : User}
    (huser : user ∈ s.users) : UsersService.findById user.id.text s.users = .ok (some user) := by
  obtain ⟨row, hrow, rfl⟩ := List.mem_map.mp huser
  rw [State.users, findRowById_accounts, findRowById_text hinv.ids hrow]
  rfl

/-- The refresh token of a session gets a new response as long as it has not expired. -/
theorem step_refresh (hjwt : jwt.Signs) (hinv : Inv v passwords jwt config rows s) {user : User}
    (huser : user ∈ s.users) {g : Grant}
    (hsession : Session v passwords jwt config s.grants user g)
    (halive : s.now < g.now + config.rtMaxAgeS) :
    (system v passwords jwt config rows).step s (.refresh (some g.response.refreshToken))
      { s with grants := grantFor jwt config user s.now (.refresh g.response.refreshToken)
                :: s.grants } := by
  have hverify : jwt.verify config.rtSecret s.now g.response.refreshToken =
      some (payloadOf user g.now config.rtMaxAgeS) := by
    rw [hsession.response_eq, prepareTokenResponse, hjwt.verify_sign, if_pos halive]
    rfl
  refine ⟨?_, (State.after_refresh hverify (findById_text hinv huser)).symm⟩
  intro token htoken
  cases htoken
  exact .inl ⟨g, hsession.mem, .inr rfl⟩

/-- A session that can be refreshed can be refreshed at every later time. -/
theorem session_kept_alive (hjwt : jwt.Signs) (hsecrets : config.atSecret ≠ config.rtSecret)
    (hids : ((accounts rows).map (·.id)).Nodup) (hlasting : 1 < config.rtMaxAgeS)
    (hr : (system v passwords jwt config rows).Reach anyStep s) {user : User}
    (huser : user ∈ s.users) {g : Grant}
    (hsession : Session v passwords jwt config s.grants user g)
    (halive : s.now < g.now + config.rtMaxAgeS) (n : Nat) :
    ∃ s', (system v passwords jwt config rows).Steps withoutLogIn s s' ∧ user ∈ s'.users ∧
      s'.now = s.now + n ∧
      ∃ g', Session v passwords jwt config s'.grants user g' ∧ g'.now = s'.now := by
  induction n with
  | zero =>
    have hinv := reachable_inv hjwt hsecrets hids hr
    refine ⟨_, .single ⟨.refresh _, trivial, step_refresh hjwt hinv huser hsession halive⟩, huser,
      rfl, _,
      .refresh (hsession.mono fun _ => List.mem_cons_of_mem _) List.mem_cons_self
        (hinv.past g hsession.mem) halive, rfl⟩
  | succ n ih =>
    obtain ⟨s', hsteps, huser', hnow, g', hsession', hg'⟩ := ih
    -- one second later the last token is still good
    have hwait : (system v passwords jwt config rows).step s' (.wait 1)
        { s' with now := s'.now + 1 } := ⟨(fun token h => by cases h), rfl⟩
    have hr' := (hr.steps (hsteps.mono fun _ _ _ => trivial)).step trivial hwait
    have hinv := reachable_inv hjwt hsecrets hids hr'
    have halive' : s'.now + 1 < g'.now + config.rtMaxAgeS := by omega
    have hrefresh := step_refresh (s := { s' with now := s'.now + 1 }) hjwt hinv huser' hsession'
      halive'
    refine ⟨_, (hsteps.tail ⟨.wait 1, trivial, hwait⟩).tail ⟨.refresh _, trivial, hrefresh⟩, huser',
      ?_, _, .refresh (hsession'.mono fun _ => List.mem_cons_of_mem _) List.mem_cons_self
        (hinv.past g' hsession'.mem) halive', rfl⟩
    show s'.now + 1 = s.now + (n + 1)
    omega

/-- A client that keeps the refresh tokens of the bodies is let in at any later time without another
log in, wherever the role of the account allows. -/
theorem body_session_lasts (hjwt : jwt.Signs) (hsecrets : config.atSecret ≠ config.rtSecret)
    (hids : ((accounts rows).map (·.id)).Nodup) (hlasting : 1 < config.rtMaxAgeS)
    (hlasts : 0 < config.atMaxAgeS) (hr : (system v passwords jwt config rows).Reach anyStep s)
    {user : User} (huser : user ∈ s.users) {g : Grant}
    (hsession : Session v passwords jwt config s.grants user g)
    (halive : s.now < g.now + config.rtMaxAgeS) (n : Nat) :
    ∃ s', (system v passwords jwt config rows).Steps withoutLogIn s s' ∧ s'.now = s.now + n ∧
      ∃ token, Presentable jwt config s'.grants token ∧
        ∀ context : ExecutionContext, ¬ context.Public →
          RolesGuard.canActivate context (some (dtoOf user)) = true →
          guards jwt config s'.now context (some token) = .ok (some (dtoOf user)) := by
  obtain ⟨s', hsteps, -, hnow, g', hsession', hg'⟩ :=
    session_kept_alive hjwt hsecrets hids hlasting hr huser hsession halive n
  refine ⟨s', hsteps, hnow, g'.response.accessToken, .inl ⟨g', hsession'.mem, .inl rfl⟩, ?_⟩
  intro context hpublic hroles
  rw [hsession'.response_eq]
  exact guards_accessToken hjwt (by omega) hpublic hroles

end Lasts

/-! ## The administrator's session -/

theorem cookie_session_ends_logIn :
    ∃ user ∈ loggedIn.users, some (dtoOf administrator.toUser) = some (dtoOf user) ∧
      ∃ before body, grantFor textJwt docConfig user before (.logIn body) ∈ loggedIn.grants ∧
        Proves strongValidator truncatingPasswords body user ∧
        loggedIn.now < before + docConfig.rtMaxAgeS + docConfig.atMaxAgeS :=
  cookie_session_ends textJwt_signs (by decide) administrator_ids
    (loggedIn_reach fun _ _ hno token hl => absurd hl (hno _)) administratorToken_shown
    meRoute_not_public (administratorToken_guards meRoute_not_public rfl)

/-- A year after the log in. -/
theorem body_session_lasts_year :
    ∃ s, (system strongValidator truncatingPasswords textJwt docConfig [administrator]).Steps
        withoutLogIn loggedIn s ∧ s.now = loggedIn.now + 31536000 ∧
      ∃ token, Presentable textJwt docConfig s.grants token ∧
        ∀ context : ExecutionContext, ¬ context.Public →
          RolesGuard.canActivate context (some (dtoOf administrator.toUser)) = true →
          guards textJwt docConfig s.now context (some token) =
            .ok (some (dtoOf administrator.toUser)) :=
  body_session_lasts textJwt_signs (by decide) administrator_ids (by decide) (by decide)
    (loggedIn_reach fun _ _ _ => trivial) (List.mem_singleton.mpr rfl)
    (.logIn List.mem_cons_self administrator_proves) (show 10 < 0 + 604800 by decide) 31536000

end Ecommerce.Auth.Sessions
