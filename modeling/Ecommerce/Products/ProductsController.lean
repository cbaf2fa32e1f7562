import Ecommerce.Auth.Guards
import Ecommerce.Database.Tables

/-!
# ProductsController — the page of a product

The page is public and is read without a lock, so it shows the committed row of the product.
-/

namespace Ecommerce.Products

open Auth

/-- `TypeOrmProductsRepository.findOneById`. -/
def TypeOrmProductsRepository.findOneById (id : String) (db : Db) :
    Except QueryError (Option Product) :=
  match UUID.ofText id with
  | some id => .ok (db.product? id)
  | none => .error .invalidText

def ProductsService.findById (id : String) (db : Db) : Except QueryError (Option Product) :=
  TypeOrmProductsRepository.findOneById id db

structure ProductResponseDto where
  id : UUID
  title : String
  description : String
  stock : Int
  price : String
  createdAt : Int
  updatedAt : Int
deriving DecidableEq

/-- The response is the row with all its columns. -/
def toResponse (others : OtherColumns) (p : Product) : ProductResponseDto where
  id := p.id
  title := others.title p.id
  description := others.description p.id
  stock := p.stock
  price := p.price
  createdAt := (others.productTimes p.id).1
  updatedAt := (others.productTimes p.id).2

def productNotFound : Exception := (HttpError.notFound "Product not found").toException

def ProductsController.findById (others : OtherColumns) (id : String) (db : Db) :
    Except Exception ProductResponseDto :=
  match ProductsService.findById id db with
  | .ok (some result) => .ok (toResponse others result)
  | .ok none => .error productNotFound
  | .error e => .error (HttpError.internal e).toException

namespace ParseUUIDPipe

-- The pattern of the pipe is the framework's.
variable (accepts : String → Bool)

def invalid : Exception := .badRequest "Validation failed (uuid is expected)"

def transform (value : String) : Except Exception String :=
  if accepts value then .ok value else .error invalid

/-- What the pipe lets through is the text of a uuid. -/
def Sound : Prop := ∀ value, accepts value = true → (UUID.ofText value).isSome = true

end ParseUUIDPipe

/-- `ProductsController.findById` is marked public. -/
def findByIdRoute : ExecutionContext where
  getClass := .none
  getHandler := { isPublic := some true, roles := none }

/-- `GET /products/:id`. -/
def getProduct {Token : Type} (jwt : JwtService Token) (config : JwtConfig) (now : Nat)
    (accepts : String → Bool) (token : Option Token) (id : String) (others : OtherColumns)
    (db : Db) : Except Exception ProductResponseDto := do
  let _ ← guards jwt config now findByIdRoute token
  let id ← ParseUUIDPipe.transform accepts id
  ProductsController.findById others id db

section Answers

variable {Token : Type} {jwt : JwtService Token} {config : JwtConfig} {now : Nat}
  {accepts : String → Bool} {token : Option Token} {id : String} {others : OtherColumns} {db : Db}

/-- The guards ask for no token. -/
theorem guards_findByIdRoute : guards jwt config now findByIdRoute token = .ok none := by
  have hpublic : JwtAuthGuard.canActivate jwt config now findByIdRoute token = .ok none :=
    JwtAuthGuard.canActivate_ok.mpr (.inl ⟨rfl, rfl⟩)
  unfold guards
  rw [hpublic]
  rfl

theorem getProduct_refused (h : accepts id = false) :
    getProduct jwt config now accepts token id others db = .error ParseUUIDPipe.invalid := by
  simp [getProduct, guards_findByIdRoute, ParseUUIDPipe.transform, h, bind, Except.bind]

theorem getProduct_accepted (h : accepts id = true) {u : UUID} (hid : UUID.ofText id = some u) :
    getProduct jwt config now accepts token id others db =
      match db.product? u with
      | some p => .ok (toResponse others p)
      | none => .error productNotFound := by
  simp only [getProduct, guards_findByIdRoute, ParseUUIDPipe.transform, h, bind, Except.bind,
    if_true, ProductsController.findById, ProductsService.findById,
    TypeOrmProductsRepository.findOneById, hid]
  cases db.product? u <;> rfl

end Answers

end Ecommerce.Products
