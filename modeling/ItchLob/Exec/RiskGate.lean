import ItchLob.Exec.Types

set_option autoImplicit false

namespace ItchLob.Exec

structure RiskLimits where
  maxOrderShares : Shares := 0
  maxOrderNotional : UInt64 := 0
  priceCollarBps : UInt32 := 0
  maxCumulativeShares : Shares := 0
  maxCumulativeNotional : UInt64 := 0
  deriving DecidableEq, Repr

inductive RejectReason where
  | none
  | orderTooLarge
  | notionalTooLarge
  | priceOutOfCollar
  | cumulativeSharesExceeded
  | cumulativeNotionalExceeded
  | killSwitchTripped
  deriving DecidableEq, Repr

def UInt64.widen (x : UInt64) : UInt128 := x.toBitVec.setWidth 128
def UInt32.widen (x : UInt32) : UInt128 := x.toBitVec.setWidth 128

structure RiskGate where
  limits : RiskLimits
  referencePrice : Price := 0
  tripped : Bool := false
  cumulativeShares : UInt64 := 0
  cumulativeNotional : UInt128 := 0

namespace RiskGate

def setReferencePrice (g : RiskGate) (p : Price) : RiskGate := { g with referencePrice := p }

def orderNotional (order : ChildOrder) : UInt64 := order.price.toUInt64 * order.shares.toUInt64

def diff (g : RiskGate) (order : ChildOrder) : Price :=
  if order.price ≥ g.referencePrice then order.price - g.referencePrice else g.referencePrice - order.price

def allowedDeviation (g : RiskGate) : UInt64 :=
  g.referencePrice.toUInt64 * g.limits.priceCollarBps.toUInt64 / 10000

def sharesWith (g : RiskGate) (order : ChildOrder) : UInt64 := g.cumulativeShares + order.shares.toUInt64
def notionalWith (g : RiskGate) (order : ChildOrder) : UInt128 :=
  g.cumulativeNotional + UInt64.widen (orderNotional order)

def check (g : RiskGate) (order : ChildOrder) : RejectReason × RiskGate :=
  if g.tripped then (.killSwitchTripped, g)
  else if order.shares > g.limits.maxOrderShares then (.orderTooLarge, g)
  else if orderNotional order > g.limits.maxOrderNotional then (.notionalTooLarge, g)
  else if order.type = .limit ∧ g.referencePrice ≠ 0 ∧ (g.diff order).toUInt64 > g.allowedDeviation then
    (.priceOutOfCollar, g)
  else if g.sharesWith order > g.limits.maxCumulativeShares.toUInt64 then
    (.cumulativeSharesExceeded, { g with tripped := true })
  else if g.notionalWith order > UInt64.widen g.limits.maxCumulativeNotional then
    (.cumulativeNotionalExceeded, { g with tripped := true })
  else (.none, g)

def record (g : RiskGate) (order : ChildOrder) : RiskGate :=
  { g with
    cumulativeShares := g.cumulativeShares + order.shares.toUInt64
    cumulativeNotional := g.cumulativeNotional + UInt32.widen order.price * UInt32.widen order.shares }

def reset (g : RiskGate) : RiskGate :=
  { g with tripped := false, cumulativeShares := 0, cumulativeNotional := 0 }

end RiskGate

structure Applied where
  gate : RiskGate
  accepted : ChildOrderQueue
  acceptedCount : Nat
  reasonsOut : Option (List RejectReason)

-- One turn of the loop; `i` counts the orders before this one.
def applyOne (a : Applied) (i : Nat) (order : ChildOrder) : Applied :=
  let (reason, gate) := a.gate.check order
  let reasonsOut := a.reasonsOut.map fun reasons => reasons.set i reason
  if reason = .none then
    let (pushed, accepted) := a.accepted.push order
    if pushed then
      { gate := gate.record order, accepted, acceptedCount := a.acceptedCount + 1, reasonsOut }
    else { a with gate, accepted, reasonsOut }
  else { a with gate, reasonsOut }

def applyLoop : List ChildOrder → Nat → Applied → Applied
  | [], _, a => a
  | order :: rest, i, a => applyLoop rest (i + 1) (applyOne a i order)

def apply (gate : RiskGate) (input accepted : ChildOrderQueue) (reasonsOut : Option (List RejectReason)) :
    Applied :=
  applyLoop input.orders 0 { gate, accepted, acceptedCount := 0, reasonsOut }

def RejectReason.cumulative : RejectReason → Bool
  | .cumulativeSharesExceeded | .cumulativeNotionalExceeded => true
  | _ => false

namespace RiskGate

variable {g : RiskGate} {order : ChildOrder}

theorem check_gate (g : RiskGate) (order : ChildOrder) :
    (g.check order).2 = { g with tripped := g.tripped || (g.check order).1.cumulative } := by
  cases g
  unfold check
  split_ifs <;> simp_all [RejectReason.cumulative]

theorem check_tripped (tripped : g.tripped = true) : (g.check order).1 = .killSwitchTripped := by
  rw [check, if_pos tripped]

structure Passes (g : RiskGate) (order : ChildOrder) : Prop where
  untripped : g.tripped = false
  size : order.shares ≤ g.limits.maxOrderShares
  notional : orderNotional order ≤ g.limits.maxOrderNotional
  collar : order.type = .limit → g.referencePrice ≠ 0 → (g.diff order).toUInt64 ≤ g.allowedDeviation
  cumulativeShares : g.sharesWith order ≤ g.limits.maxCumulativeShares.toUInt64
  cumulativeNotional : g.notionalWith order ≤ UInt64.widen g.limits.maxCumulativeNotional

theorem check_passes (none : (g.check order).1 = .none) : Passes g order := by
  unfold check at none
  split_ifs at none with tripped size notional collar shares total
  exact
    { untripped := by simpa using tripped
      size := UInt32.not_lt.mp size
      notional := UInt64.not_lt.mp notional
      collar := fun limit priced => UInt64.not_lt.mp fun outside => collar ⟨limit, priced, outside⟩
      cumulativeShares := UInt64.not_lt.mp shares
      cumulativeNotional := BitVec.not_lt.mp total }

def notional (order : ChildOrder) : Nat := order.price.toNat * order.shares.toNat

/-- No sum, product or difference that check or record forms on this order wraps. -/
structure Exact (g : RiskGate) (order : ChildOrder) : Prop where
  orderNotional : (orderNotional order).toNat = notional order
  deviation : (g.referencePrice.toUInt64 * g.limits.priceCollarBps.toUInt64).toNat =
    g.referencePrice.toNat * g.limits.priceCollarBps.toNat
  diff : (g.diff order).toNat =
    if g.referencePrice.toNat ≤ order.price.toNat then order.price.toNat - g.referencePrice.toNat
    else g.referencePrice.toNat - order.price.toNat
  sharesWith : (g.sharesWith order).toNat = g.cumulativeShares.toNat + order.shares.toNat
  notionalWith : (g.notionalWith order).toNat = g.cumulativeNotional.toNat + notional order
  product : (UInt32.widen order.price * UInt32.widen order.shares).toNat = notional order
  recordedShares : (g.record order).cumulativeShares.toNat = g.cumulativeShares.toNat + order.shares.toNat
  recordedNotional : (g.record order).cumulativeNotional.toNat =
    g.cumulativeNotional.toNat + notional order

theorem product_lt (a b : UInt32) : a.toNat * b.toNat < 2 ^ 64 := by
  have := Nat.mul_le_mul (Nat.le_of_lt_succ a.toNat_lt) (Nat.le_of_lt_succ b.toNat_lt)
  omega

theorem toUInt64_mul_toNat (a b : UInt32) : (a.toUInt64 * b.toUInt64).toNat = a.toNat * b.toNat := by
  rw [UInt64.toNat_mul, UInt32.toNat_toUInt64, UInt32.toNat_toUInt64, Nat.mod_eq_of_lt (product_lt a b)]

theorem diff_toNat (g : RiskGate) (order : ChildOrder) :
    (g.diff order).toNat =
      if g.referencePrice.toNat ≤ order.price.toNat then order.price.toNat - g.referencePrice.toNat
      else g.referencePrice.toNat - order.price.toNat := by
  simp only [diff, ge_iff_le, UInt32.le_iff_toNat_le]
  split
  next above => exact UInt32.toNat_sub_of_le _ _ (UInt32.le_iff_toNat_le.mpr above)
  next below => exact UInt32.toNat_sub_of_le _ _ (UInt32.le_iff_toNat_le.mpr (by omega))

theorem widen_product (a b : UInt32) : (UInt32.widen a * UInt32.widen b).toNat = a.toNat * b.toNat := by
  have bound := product_lt a b
  have left : a.toNat % 2 ^ 128 = a.toNat := Nat.mod_eq_of_lt (by have := a.toNat_lt; omega)
  have right : b.toNat % 2 ^ 128 = b.toNat := Nat.mod_eq_of_lt (by have := b.toNat_lt; omega)
  simp only [UInt32.widen, BitVec.toNat_mul, BitVec.toNat_setWidth, UInt32.toNat_toBitVec, left, right]
  exact Nat.mod_eq_of_lt (by omega)

theorem exact_of_small (g : RiskGate) (order : ChildOrder) (shares : g.cumulativeShares.toNat < 2 ^ 32)
    (total : g.cumulativeNotional.toNat < 2 ^ 64) : Exact g order := by
  have size := order.shares.toNat_lt
  have worth := product_lt order.price order.shares
  have product := widen_product order.price order.shares
  have shareSum : (g.sharesWith order).toNat = g.cumulativeShares.toNat + order.shares.toNat := by
    rw [sharesWith, UInt64.toNat_add, UInt32.toNat_toUInt64]
    omega
  have notionalSum : (g.notionalWith order).toNat = g.cumulativeNotional.toNat + notional order := by
    simp only [notionalWith, UInt64.widen, BitVec.toNat_add, BitVec.toNat_setWidth, UInt64.toNat_toBitVec,
      orderNotional, toUInt64_mul_toNat, notional]
    omega
  exact
    { orderNotional := toUInt64_mul_toNat _ _
      deviation := toUInt64_mul_toNat _ _
      diff := g.diff_toNat order
      sharesWith := shareSum
      notionalWith := notionalSum
      product := product
      recordedShares := shareSum
      recordedNotional := by
        simp only [record, BitVec.toNat_add, product, notional]
        omega }

end RiskGate

end ItchLob.Exec
