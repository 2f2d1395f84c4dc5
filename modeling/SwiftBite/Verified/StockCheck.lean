import Mathlib.Algebra.Order.BigOperators.Group.List
import SwiftBite.Verified.Placement

/-! # The stock check of a placement

The lines of an order are compared with the stock one by one.  A product that several lines
name may be ordered beyond its stock, and only so.
-/

set_option autoImplicit false

namespace SwiftBite.Verified.StockCheck

open Store OrderService

/-- The lines of the product together. -/
def ordered (items : List OrderItemInput) (productId : ℕ) : ℕ :=
  ((items.filter fun item => item.productId = productId).map OrderItemInput.quantity).sum

/-- The core service has an amount of the product for sale; its first answer for a product
counts. -/
def InStock (branchProducts : List CoreBranchProduct) (productId amount : ℕ) : Prop :=
  ∃ product, findProduct branchProducts productId = some product ∧ product.isAvailable = true ∧
  (amount : ℤ) ≤ product.stock

/-- Every product is in stock for all of its lines. -/
def Covered (branchProducts : List CoreBranchProduct) (items : List OrderItemInput) : Prop :=
  ∀ item ∈ items, InStock branchProducts item.productId (ordered items item.productId)

/-- Every line is in stock for itself. -/
def EachFits (branchProducts : List CoreBranchProduct) (items : List OrderItemInput) : Prop :=
  ∀ item ∈ items, InStock branchProducts item.productId item.quantity

/-- The call is over before its first statement. -/
def OutOfStock {α : Type} (call : Service α) : Prop :=
  ∃ details, call = throw (Err.outOfStockError details)

/-- The request comes as far as the stock check, which reads these products. -/
structure Reaches (core : Core) (customerId : ℕ) (data : CreateOrderRequest)
    (branchProducts : List CoreBranchProduct) : Prop where
  branch : ∃ branch, core.getBranch data.branchId = .ok branch ∧ branch.acceptOrders = true ∧
    branch.restaurantActive = true
  address : ∃ address, core.getCustomerAddress data.customerAddressId = .ok address ∧
    address.userId = customerId
  products : core.getBranchProducts data.branchId (data.items.map OrderItemInput.productId) =
    .ok branchProducts

section

variable {branchProducts : List CoreBranchProduct} {items : List OrderItemInput}

/-- A line is no more than the lines of its product. -/
theorem quantity_le_ordered {item : OrderItemInput} (member : item ∈ items) :
    item.quantity ≤ ordered items item.productId := by
  have kept : item ∈ items.filter fun other => other.productId = item.productId :=
    List.mem_filter.2 ⟨member, by simp⟩
  exact List.le_sum_of_mem (List.mem_map_of_mem kept)

theorem eachFits_of_covered (covered : Covered branchProducts items) :
    EachFits branchProducts items := by
  intro item member
  obtain ⟨product, found, isAvailable, le⟩ := covered item member
  have line := quantity_le_ordered member
  exact ⟨product, found, isAvailable, by omega⟩

theorem shortfalls_eq_nil :
    shortfalls branchProducts items = [] ↔ EachFits branchProducts items := by
  rw [shortfalls, List.filterMap_eq_nil_iff, EachFits]
  refine forall₂_congr fun item _ => ?_
  cases found : findProduct branchProducts item.productId with
  | none => simp [InStock, found]
  | some product =>
    cases isAvailable : product.isAvailable with
    | true => simp [InStock, found, isAvailable]
    | false => simp [InStock, found, isAvailable]

end

section

variable {core : Core} {customerId : ℕ} {data : CreateOrderRequest}
  {branchProducts : List CoreBranchProduct}

theorem Reaches.placeOrder_of_short (reaches : Reaches core customerId data branchProducts)
    (short : ¬ EachFits branchProducts data.items) :
    placeOrder core customerId data =
      throw (Err.outOfStockError (shortfalls branchProducts data.items)) := by
  obtain ⟨⟨branch, answered, accepts⟩, ⟨address, located, isOwn⟩, listed⟩ := reaches
  rw [placeOrder_checked answered accepts located isOwn listed]
  exact throwIf_bind fun none => short (shortfalls_eq_nil.1 none)

/-- When every line fits, the order is placed. -/
theorem Reaches.placeOrder_of_fits (reaches : Reaches core customerId data branchProducts)
    (fits : EachFits branchProducts data.items) :
    ∃ branch address, placeOrder core customerId data = (do
      let publicId ← uuidv4
      let placed ← insertOrder branch address branchProducts customerId publicId data
      reserve core placed.1 data
      pure placed) := by
  obtain ⟨⟨branch, answered, accepts⟩, ⟨address, located, isOwn⟩, listed⟩ := reaches
  refine ⟨branch, address, ?_⟩
  rw [placeOrder_checked answered accepts located isOwn listed]
  exact throwIf_bind_of_not fun short => short (shortfalls_eq_nil.2 fits)

theorem Reaches.not_outOfStock (reaches : Reaches core customerId data branchProducts)
    (fits : EachFits branchProducts data.items) :
    ¬ OutOfStock (placeOrder core customerId data) := by
  rintro ⟨details, isThrow⟩
  obtain ⟨branch, address, isPlacement⟩ := reaches.placeOrder_of_fits fits
  -- a placement begins with the choice of an id
  rw [isPlacement] at isThrow
  cases isThrow

end

/-- Whatever the core service answers, an order beyond the stock is refused exactly when one of
its lines is beyond it already. -/
theorem stock_check_iff (core : Core) (customerId : ℕ) (data : CreateOrderRequest)
    (branchProducts : List CoreBranchProduct)
    (reaches : Reaches core customerId data branchProducts) :
    (¬ Covered branchProducts data.items → OutOfStock (placeOrder core customerId data)) ↔
      (EachFits branchProducts data.items → Covered branchProducts data.items) := by
  constructor
  · intro refuses fits
    by_contra beyond
    exact reaches.not_outOfStock fits (refuses beyond)
  · intro enough beyond
    exact ⟨_, reaches.placeOrder_of_short fun fits => beyond (enough fits)⟩

/-! ## Ten cups of tea -/

/-- Four cups, and more than the ten that there are. -/
def fourAndEleven : CreateOrderRequest := ⟨6, 8, .cod, [⟨1, 4⟩, ⟨1, 11⟩]⟩

theorem four_and_eleven_cups_are_refused : OutOfStock (placeOrder Sample.core 7 fourAndEleven) := by
  have beyond : ¬ EachFits [⟨1, "tea", none, 500, 10, true⟩] fourAndEleven.items := by
    simp [EachFits, InStock, findProduct, fourAndEleven]
  have reaches : Reaches Sample.core 7 fourAndEleven [⟨1, "tea", none, 500, 10, true⟩] :=
    ⟨⟨Sample.branch, rfl, rfl, rfl⟩, ⟨_, rfl, rfl⟩, rfl⟩
  exact (stock_check_iff Sample.core 7 fourAndEleven [⟨1, "tea", none, 500, 10, true⟩] reaches).2
    (fun fits => absurd fits beyond)
    fun covered => beyond (eachFits_of_covered covered)

/-- Two lines of six cups. -/
def sixAndSix : CreateOrderRequest := ⟨6, 8, .cod, [⟨1, 6⟩, ⟨1, 6⟩]⟩

/-- Twelve cups are ordered, and the order is inserted. -/
theorem twelve_cups_are_ordered :
    Reaches Sample.core 7 sixAndSix [⟨1, "tea", none, 500, 10, true⟩] ∧
    ¬ Covered [⟨1, "tea", none, 500, 10, true⟩] sixAndSix.items ∧
      ¬ OutOfStock (placeOrder Sample.core 7 sixAndSix) ∧
      ∃ p,
        Pool.Reach (code Sample.env) (fun _ _ => True) (Pool.quiet Database.empty Sample.shared) p ∧
        (p.db .orderItems).rows.map OrderItem.quantity = [6, 6] := by
  have reaches : Reaches Sample.core 7 sixAndSix [⟨1, "tea", none, 500, 10, true⟩] :=
    ⟨⟨Sample.branch, rfl, rfl, rfl⟩, ⟨_, rfl, rfl⟩, rfl⟩
  have fits : EachFits [⟨1, "tea", none, 500, 10, true⟩] sixAndSix.items := by
    simp [EachFits, InStock, findProduct, sixAndSix]
  have played : (Pool.play (code Sample.env) (fun _ _ => true)
      (.spawn (.placeOrder Sample.core 7 sixAndSix) :: List.replicate 14 (Sample.act 0))
      (Pool.quiet Database.empty Sample.shared)).map
        (fun p => (p.db .orderItems).rows.map OrderItem.quantity) = some [6, 6] := by decide +kernel
  obtain ⟨p, isRun, quantities⟩ := Option.map_eq_some_iff.1 played
  refine ⟨reaches, ?_, reaches.not_outOfStock fits, p,
    Pool.reach_of_play (fun _ _ _ => trivial) isRun, quantities⟩
  simp [Covered, InStock, findProduct, sixAndSix, ordered]

end SwiftBite.Verified.StockCheck
