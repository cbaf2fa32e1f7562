import Ecommerce.Auth.Disclosure

/-!
# Guards — the global guards and the metadata of a route

`JwtAuthGuard` looks for its metadata on the handler and then on the class, `RolesGuard` on the
class and then on the handler.  So the roles a class asks for take the place of those its handler
asks for.
-/

namespace Ecommerce.Auth

/-- The metadata that `@Public()` and `@Roles(...)` leave on a class or on a handler. -/
structure Decorators where
  isPublic : Option Bool
  roles : Option (List UserRole)

def Decorators.none : Decorators := { isPublic := Option.none, roles := Option.none }

/-- The route a request is for. -/
structure ExecutionContext where
  getClass : Decorators
  getHandler : Decorators

/-- `reflector.getAllAndOverride`: the first value that is defined. -/
def getAllAndOverride {α : Type} (key : Decorators → Option α) (targets : List Decorators) :
    Option α := targets.findSome? key

/-- `new ForbiddenException("Forbidden resource")`, thrown when a guard returns false. -/
def forbidden : Exception := .ofStatus 403 "Forbidden" (.str "Forbidden resource")

section Guards

variable {Token : Type} (jwt : JwtService Token) (config : JwtConfig) (now : Nat)

/-- `JwtAuthGuard.canActivate`; what it lets through comes with `req.user`. -/
def JwtAuthGuard.canActivate (context : ExecutionContext) (token : Option Token) :
    Except Exception (Option JwtPayloadDto) :=
  let isPublic := getAllAndOverride (·.isPublic) [context.getHandler, context.getClass]
  if isPublic = some true then .ok none
  else
    match authenticate jwt config now token with
    | .ok user => .ok (some user)
    | .error e => .error e.toException

/-- `RolesGuard.canActivate`. -/
def RolesGuard.canActivate (context : ExecutionContext) (user : Option JwtPayloadDto) : Bool :=
  match getAllAndOverride (·.roles) [context.getClass, context.getHandler] with
  | none => true
  | some required => required.any fun role => user.any fun u => u.roles.contains role

/-- The global guards, in the order `AppModule` provides them. -/
def guards (context : ExecutionContext) (token : Option Token) :
    Except Exception (Option JwtPayloadDto) := do
  let user ← JwtAuthGuard.canActivate jwt config now context token
  if RolesGuard.canActivate context user then return user else throw forbidden

/-- The guards let the request through. -/
def Admitted (context : ExecutionContext) (token : Option Token) : Prop :=
  ∃ user, guards jwt config now context token = .ok user

/-- The handler or, failing that, its class is marked public. -/
def ExecutionContext.Public (context : ExecutionContext) : Prop :=
  context.getHandler.isPublic.or context.getClass.isPublic = some true

/-- The token is valid and unexpired under the access secret. -/
def Verified (token : Option Token) (payload : JwtPayload) : Prop :=
  token.bind (jwt.verify config.atSecret now) = some payload

/-- The roles of the token include a role of the list. -/
def JwtPayload.Includes (payload : JwtPayload) (roles : List UserRole) : Prop :=
  ∃ role ∈ roles, role ∈ payload.roles.getD []

/-- What the decorators of a route ask of a request. -/
structure AccessRule (context : ExecutionContext) (token : Option Token) : Prop where
  authenticated : context.Public ∨ ∃ payload, Verified jwt config now token payload
  own : ∀ roles, context.getHandler.roles = some roles →
    ∃ payload, Verified jwt config now token payload ∧ payload.Includes roles
  inherited : context.getHandler.roles = none → ∀ roles, context.getClass.roles = some roles →
    ∃ payload, Verified jwt config now token payload ∧ payload.Includes roles

/-- The roles of the class stand in for those of the handler, which the token does not have. -/
def Overridden (context : ExecutionContext) (token : Option Token) : Prop :=
  ¬ context.Public ∧ ∃ roles own payload, context.getClass.roles = some roles ∧
    context.getHandler.roles = some own ∧ Verified jwt config now token payload ∧
    payload.Includes roles ∧ ¬ payload.Includes own

end Guards

section Laws

variable {Token : Type} {jwt : JwtService Token} {config : JwtConfig} {now : Nat}
variable {context : ExecutionContext} {token : Option Token}

theorem getAllAndOverride_pair {α : Type} (key : Decorators → Option α) (a b : Decorators) :
    getAllAndOverride key [a, b] = (key a).or (key b) := by
  rw [getAllAndOverride, List.findSome?_cons]
  cases key a with
  | none => cases hb : key b <;> simp [hb]
  | some value => rfl

theorem Verified.unique {payload payload' : JwtPayload} (h : Verified jwt config now token payload)
    (h' : Verified jwt config now token payload') : payload = payload' :=
  Option.some.inj (h.symm.trans h')

theorem JwtAuthGuard.canActivate_ok {user : Option JwtPayloadDto} :
    JwtAuthGuard.canActivate jwt config now context token = .ok user ↔
      (context.Public ∧ user = none) ∨
      (¬ context.Public ∧ ∃ payload, Verified jwt config now token payload ∧
        user = some (validate payload)) := by
  unfold JwtAuthGuard.canActivate ExecutionContext.Public Verified
  rw [getAllAndOverride_pair]
  by_cases hpublic : context.getHandler.isPublic.or context.getClass.isPublic = some true
  · simp [hpublic, eq_comm]
  · rw [if_neg hpublic, authenticate]
    cases token.bind (jwt.verify config.atSecret now) with
    | none => simp [hpublic]
    | some payload => simp [hpublic, eq_comm]

theorem RolesGuard.canActivate_true {user : Option JwtPayloadDto} :
    RolesGuard.canActivate context user = true ↔
      ∀ required, context.getClass.roles.or context.getHandler.roles = some required →
        ∃ role ∈ required, ∃ u, user = some u ∧ role ∈ u.roles := by
  unfold RolesGuard.canActivate
  rw [getAllAndOverride_pair]
  cases context.getClass.roles.or context.getHandler.roles with
  | none => simp
  | some required => cases user <;> simp

/-- The requests the guards let through: without a token only where no role is asked for. -/
theorem admitted_iff : Admitted jwt config now context token ↔
    (context.Public ∧ context.getClass.roles.or context.getHandler.roles = none) ∨
    (¬ context.Public ∧ ∃ payload, Verified jwt config now token payload ∧
      ∀ required, context.getClass.roles.or context.getHandler.roles = some required →
        payload.Includes required) := by
  have hguards : Admitted jwt config now context token ↔
      ∃ user, JwtAuthGuard.canActivate jwt config now context token = .ok user ∧
        RolesGuard.canActivate context user = true := by
    unfold Admitted guards
    cases JwtAuthGuard.canActivate jwt config now context token with
    | error e => simp [bind, Except.bind]
    | ok user =>
      cases hroles : RolesGuard.canActivate context user <;>
        simp [bind, Except.bind, pure, Except.pure, throw, throwThe, MonadExceptOf.throw, hroles]
  rw [hguards]
  simp only [JwtAuthGuard.canActivate_ok, RolesGuard.canActivate_true]
  constructor
  · rintro ⟨user, ⟨hpublic, rfl⟩ | ⟨hpublic, payload, hverified, rfl⟩, hroles⟩
    · -- nobody has set `req.user`, so no list can be met
      refine .inl ⟨hpublic, Option.eq_none_iff_forall_ne_some.mpr fun required heq => ?_⟩
      obtain ⟨role, -, u, hu, -⟩ := hroles required heq
      cases hu
    · refine .inr ⟨hpublic, payload, hverified, fun required heq => ?_⟩
      obtain ⟨role, hrole, u, hu, hmem⟩ := hroles required heq
      rw [← Option.some.inj hu] at hmem
      exact ⟨role, hrole, hmem⟩
  · rintro (⟨hpublic, hnone⟩ | ⟨hpublic, payload, hverified, hroles⟩)
    · exact ⟨none, .inl ⟨hpublic, rfl⟩, fun required heq => by rw [hnone] at heq; cases heq⟩
    · refine ⟨_, .inr ⟨hpublic, payload, hverified, rfl⟩, fun required heq => ?_⟩
      obtain ⟨role, hrole, hmem⟩ := hroles required heq
      exact ⟨role, hrole, _, rfl, hmem⟩

variable (jwt config now context token)

/-- What the guards let through meets the rule of its route, unless the route is not public, class
and handler both have a list, and the verified roles meet the list of the class only. -/
theorem admitted_accessRule_iff :
    (Admitted jwt config now context token → AccessRule jwt config now context token) ↔
      ¬ Overridden jwt config now context token := by
  constructor
  · rintro hrule ⟨hpublic, roles, own, payload, hclass, hhandler, hverified, hroles, hown⟩
    have hadmitted : Admitted jwt config now context token := by
      refine admitted_iff.mpr (.inr ⟨hpublic, payload, hverified, fun required heq => ?_⟩)
      rw [hclass, Option.some_or, Option.some.injEq] at heq
      rwa [← heq]
    obtain ⟨payload', hverified', hincludes⟩ := (hrule hadmitted).own own hhandler
    rw [← hverified.unique hverified'] at hincludes
    exact hown hincludes
  · intro hnot hadmitted
    obtain ⟨hpublic, hnone⟩ | ⟨hpublic, payload, hverified, hroles⟩ := admitted_iff.mp hadmitted
    · obtain ⟨hclass, hhandler⟩ := Option.or_eq_none_iff.mp hnone
      refine ⟨.inl hpublic, fun own heq => ?_, fun _ roles heq => ?_⟩
      · rw [hhandler] at heq
        cases heq
      · rw [hclass] at heq
        cases heq
    · refine ⟨.inr ⟨payload, hverified⟩, fun own hhandler => ?_, fun _ roles hclass => ?_⟩
      · refine ⟨payload, hverified, ?_⟩
        cases hclass : context.getClass.roles with
        | none => exact hroles own (by rw [hclass, Option.none_or, hhandler])
        | some roles =>
          by_contra hown
          have hincludes := hroles roles (by rw [hclass, Option.some_or])
          exact hnot ⟨hpublic, roles, own, payload, hclass, hhandler, hverified, hincludes, hown⟩
      · exact ⟨payload, hverified, hroles roles (by rw [hclass, Option.some_or])⟩

end Laws

/-! ## A handler for admins in a class for users -/

/-- A token library whose tokens are what was signed: the secret, the expiry and the payload. -/
def plainJwt : JwtService (String × Nat × JwtPayloadDto) where
  sign := fun secret expiresIn now payload => (secret, now + expiresIn, payload)
  verify := fun secret now (secret', exp, payload) =>
    if secret = secret' ∧ now < exp then
      some { sub := payload.sub, iat := 0, exp, email := payload.email, roles := some payload.roles }
    else none

/-- `@Roles("user")` on the class and `@Roles("admin")` on the handler. -/
def adminHandler : ExecutionContext where
  getClass := { isPublic := none, roles := some [.user] }
  getHandler := { isPublic := none, roles := some [.admin] }

def plainUser : User where
  id := .ofNat 7
  email := "user@mail.com"
  password := ""
  role := .user

/-- The access token of a user is let through to the handler for admins. -/
theorem adminHandler_admits_user :
    let token := (prepareTokenResponse plainJwt docConfig 0 plainUser).accessToken
    Admitted plainJwt docConfig 1 adminHandler (some token) ∧
      ¬ AccessRule plainJwt docConfig 1 adminHandler (some token) := by
  refine ⟨⟨_, rfl⟩, fun hrule => ?_⟩
  obtain ⟨payload, hverified, role, hrole, hmem⟩ := hrule.own [.admin] rfl
  rw [← Option.some.inj hverified, List.mem_singleton.mp hrole] at hmem
  revert hmem
  decide

/-! ## The routes of the repository -/

/-- `DebugController.processOrder`, the only route with `@Roles`. -/
def processOrderRoute : ExecutionContext where
  getClass := .none
  getHandler := { isPublic := none, roles := some [.admin] }

/-- Only a verified token with the role `admin` gets to the debug route. -/
theorem processOrderRoute_admitted {Token : Type} {jwt : JwtService Token} {config : JwtConfig}
    {now : Nat} {token : Option Token} : Admitted jwt config now processOrderRoute token ↔
      ∃ payload, Verified jwt config now token payload ∧ .admin ∈ payload.roles.getD [] := by
  have hpublic : ¬ processOrderRoute.Public := by
    unfold ExecutionContext.Public
    decide
  have hrequired : processOrderRoute.getClass.roles.or processOrderRoute.getHandler.roles =
      some [.admin] := rfl
  rw [admitted_iff, hrequired]
  simp [hpublic, JwtPayload.Includes]

end Ecommerce.Auth
