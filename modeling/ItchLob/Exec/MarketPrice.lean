import Mathlib.Data.List.Forall2
import ItchLob.Exec.FillSim
import ItchLob.Exec.Partition

set_option autoImplicit false

namespace ItchLob.Exec

open RiskGate

def ChildOrder.reprice (order : ChildOrder) (p : Price) : ChildOrder := { order with price := p }

def Agree (order other : ChildOrder) : Prop :=
  other = order ∨ order.type = .market ∧ ∃ p, other = order.reprice p

def fillAll (sim : FillSimulator) (orders : List ChildOrder) : FillSimulator :=
  orders.foldl (fun sim order => (sim.fill order).2) sim

structure SameOutcome (sim : FillSimulator) (r other : Applied) (log log' : List Verdict) : Prop where
  reasons : r.reasonsOut = other.reasonsOut
  positions : log.map Verdict.recorded = log'.map Verdict.recorded
  tripped : r.gate.tripped = other.gate.tripped
  shares : r.gate.cumulativeShares = other.gate.cumulativeShares
  notional : r.gate.cumulativeNotional = other.gate.cumulativeNotional
  fills : fillAll sim r.accepted.orders = fillAll sim other.accepted.orders

def dearest (order : ChildOrder) : Nat := (2 ^ 32 - 1) * order.shares.toNat

-- The first price at which the order takes the cumulative notional past its 128 bits.
def wrapsFrom (g : RiskGate) (order : ChildOrder) : Nat :=
  (2 ^ 128 - g.cumulativeNotional.toNat + (order.shares.toNat - 1)) / order.shares.toNat

/-- The total is over its limit already, and would be even just after wrapping. -/
def AlwaysOver (g : RiskGate) (order : ChildOrder) : Prop :=
  g.limits.maxCumulativeNotional.toNat < g.cumulativeNotional.toNat ∧
    (wrapsFrom g order < 2 ^ 32 →
      g.limits.maxCumulativeNotional.toNat <
        g.cumulativeNotional.toNat + wrapsFrom g order * order.shares.toNat - 2 ^ 128)

/-- No price of this Market order would make a difference here: it is rejected
before its notional is formed, or has none, or every price meets the same fate
without being recorded. -/
def Indifferent (a : Applied) (order : ChildOrder) : Prop :=
  a.gate.tripped = true ∨ order.shares > a.gate.limits.maxOrderShares ∨ order.shares = 0 ∨
    dearest order ≤ a.gate.limits.maxOrderNotional.toNat ∧
      (a.gate.sharesWith order > a.gate.limits.maxCumulativeShares.toUInt64 ∨ AlwaysOver a.gate order ∨
        a.gate.cumulativeNotional.toNat + dearest order ≤ a.gate.limits.maxCumulativeNotional.toNat ∧
          a.accepted.full = true)

def PriceBlind : List ChildOrder → Nat → Applied → Prop
  | [], _, _ => True
  | order :: rest, i, a =>
    (order.type = .market → Indifferent a order) ∧ PriceBlind rest (i + 1) (applyOne a i order)

section Prices

variable (g : RiskGate) (order : ChildOrder)

theorem price_le (p : Price) : p.toNat * order.shares.toNat ≤ dearest order :=
  Nat.mul_le_mul_right _ (Nat.le_pred_of_lt p.toNat_lt)

theorem highest : (UInt32.ofNat (2 ^ 32 - 1)).toNat * order.shares.toNat = dearest order := rfl

theorem dearest_lt : dearest order < 2 ^ 64 := highest order ▸ product_lt _ _

theorem notionalWith_reprice (p : Price) :
    (g.notionalWith (order.reprice p)).toNat =
      (g.cumulativeNotional.toNat + p.toNat * order.shares.toNat) % 2 ^ 128 := by
  have worth := product_lt p order.shares
  simp only [notionalWith, UInt64.widen, BitVec.toNat_add, BitVec.toNat_setWidth, UInt64.toNat_toBitVec,
    orderNotional, toUInt64_mul_toNat, ChildOrder.reprice]
  omega

theorem over_iff (p : Price) :
    g.notionalWith (order.reprice p) > UInt64.widen g.limits.maxCumulativeNotional ↔
      g.limits.maxCumulativeNotional.toNat < (g.cumulativeNotional.toNat + p.toNat * order.shares.toNat) % 2 ^ 128 := by
  have limit := g.limits.maxCumulativeNotional.toNat_lt
  rw [gt_iff_lt, BitVec.lt_def, notionalWith_reprice, UInt64.widen, BitVec.toNat_setWidth, UInt64.toNat_toBitVec,
    Nat.mod_eq_of_lt (Nat.lt_trans limit (by decide))]

theorem affordable_iff :
    (∀ p, ¬orderNotional (order.reprice p) > g.limits.maxOrderNotional) ↔
      dearest order ≤ g.limits.maxOrderNotional.toNat := by
  have worth (p : Price) : ¬orderNotional (order.reprice p) > g.limits.maxOrderNotional ↔
      p.toNat * order.shares.toNat ≤ g.limits.maxOrderNotional.toNat := by
    rw [gt_iff_lt, UInt64.not_lt, UInt64.le_iff_toNat_le, orderNotional, toUInt64_mul_toNat]
    rfl
  simp only [worth]
  exact ⟨fun all => highest order ▸ all (UInt32.ofNat (2 ^ 32 - 1)), fun most p => (price_le order p).trans most⟩

theorem cheap_iff :
    (∀ p, ¬g.notionalWith (order.reprice p) > UInt64.widen g.limits.maxCumulativeNotional) ↔
      g.cumulativeNotional.toNat + dearest order ≤ g.limits.maxCumulativeNotional.toNat := by
  have limit := g.limits.maxCumulativeNotional.toNat_lt
  have most := dearest_lt order
  have total := g.cumulativeNotional.isLt
  simp only [over_iff, Nat.not_lt]
  constructor
  · intro all
    have least := all 0
    have top := all (UInt32.ofNat (2 ^ 32 - 1))
    rw [highest] at top
    rw [show (0 : UInt32).toNat = 0 from rfl, Nat.zero_mul, Nat.add_zero, Nat.mod_eq_of_lt total] at least
    rwa [Nat.mod_eq_of_lt (by omega)] at top
  · intro fits p
    have within := price_le order p
    rw [Nat.mod_eq_of_lt (by omega)]
    omega

theorem wrapsFrom_le_iff (positive : 0 < order.shares.toNat) (k : Nat) :
    wrapsFrom g order ≤ k ↔ 2 ^ 128 ≤ g.cumulativeNotional.toNat + k * order.shares.toNat := by
  have total := g.cumulativeNotional.isLt
  rw [wrapsFrom, ← Nat.lt_succ_iff, Nat.div_lt_iff_lt_mul positive, Nat.succ_mul]
  omega

theorem over_always_iff (positive : 0 < order.shares.toNat) :
    (∀ p, g.notionalWith (order.reprice p) > UInt64.widen g.limits.maxCumulativeNotional) ↔ AlwaysOver g order := by
  have total := g.cumulativeNotional.isLt
  simp only [over_iff, AlwaysOver]
  constructor
  · intro all
    constructor
    · have least := all 0
      rwa [show (0 : UInt32).toNat = 0 from rfl, Nat.zero_mul, Nat.add_zero, Nat.mod_eq_of_lt total] at least
    · intro reached
      have there := all (UInt32.ofNat (wrapsFrom g order))
      have wraps := (wrapsFrom_le_iff g order positive _).mp (Nat.le_refl _)
      have most := Nat.mul_le_mul_right order.shares.toNat (Nat.le_pred_of_lt reached)
      have small := dearest_lt order
      rw [UInt32.toNat_ofNat_of_lt' reached, Nat.mod_eq_sub_mod wraps, Nat.mod_eq_of_lt] at there
      · exact there
      · change wrapsFrom g order * order.shares.toNat ≤ dearest order at most
        omega
  · intro ⟨spent, wrapped⟩ p
    have within := price_le order p
    have small := dearest_lt order
    by_cases wraps : wrapsFrom g order ≤ p.toNat
    · have beyond := (wrapsFrom_le_iff g order positive _).mp wraps
      have most := Nat.mul_le_mul_right order.shares.toNat wraps
      have least := wrapped (Nat.lt_of_le_of_lt wraps p.toNat_lt)
      rw [Nat.mod_eq_sub_mod beyond, Nat.mod_eq_of_lt (by omega)]
      exact Nat.lt_of_lt_of_le least (Nat.sub_le_sub_right (Nat.add_le_add_left most _) _)
    · rw [wrapsFrom_le_iff g order positive, Nat.not_le] at wraps
      rw [Nat.mod_eq_of_lt wraps]
      omega

variable {g order}

theorem AlwaysOver.dear (spent : AlwaysOver g order) (p : Price) :
    g.notionalWith (order.reprice p) > UInt64.widen g.limits.maxCumulativeNotional := by
  rcases Nat.eq_zero_or_pos order.shares.toNat with none | positive
  · rw [over_iff, none, Nat.mul_zero, Nat.add_zero, Nat.mod_eq_of_lt g.cumulativeNotional.isLt]
    exact spent.1
  · exact (over_always_iff g order positive).mpr spent p

end Prices

section Check

variable {g : RiskGate} {order : ChildOrder} (market : order.type = .market)

include market in
theorem check_market :
    (g.check order).1 =
      if g.tripped then .killSwitchTripped
      else if order.shares > g.limits.maxOrderShares then .orderTooLarge
      else if orderNotional order > g.limits.maxOrderNotional then .notionalTooLarge
      else if g.sharesWith order > g.limits.maxCumulativeShares.toUInt64 then .cumulativeSharesExceeded
      else if g.notionalWith order > UInt64.widen g.limits.maxCumulativeNotional then .cumulativeNotionalExceeded
      else .none := by
  unfold check
  simp only [market, reduceCtorEq, false_and, if_false]
  split_ifs <;> rfl

theorem orderNotional_zero (zero : order.shares = 0) (p : Price) : orderNotional (order.reprice p) = 0 := by
  simp [orderNotional, ChildOrder.reprice, zero]

theorem orderNotional_free (order : ChildOrder) : orderNotional (order.reprice 0) = 0 := by
  simp [orderNotional, ChildOrder.reprice]

theorem Indifferent.check_eq {a : Applied} (indifferent : Indifferent a order) (market : order.type = .market)
    (p : Price) : (a.gate.check (order.reprice p)).1 = (a.gate.check order).1 := by
  have repriced : (order.reprice p).type = .market := market
  have size : (order.reprice p).shares = order.shares := rfl
  have shares : a.gate.sharesWith (order.reprice p) = a.gate.sharesWith order := rfl
  rw [check_market market, check_market repriced, shares, size]
  rcases indifferent with tripped | large | zero | ⟨affordable, cumulative⟩
  · rw [if_pos tripped, if_pos tripped]
  · rw [if_pos large, if_pos large]
  · have worth : orderNotional (order.reprice p) = orderNotional order :=
      (orderNotional_zero zero p).trans (orderNotional_zero zero order.price).symm
    rw [notionalWith, notionalWith, worth]
  · have affordable := (affordable_iff a.gate order).mpr affordable
    have same : ¬orderNotional order > a.gate.limits.maxOrderNotional := affordable order.price
    rw [if_neg (affordable p), if_neg same]
    rcases cumulative with exceeded | spent | ⟨cheap, -⟩
    · rw [if_pos exceeded, if_pos exceeded]
    · have dear := spent.dear
      have own : a.gate.notionalWith order > UInt64.widen a.gate.limits.maxCumulativeNotional := dear order.price
      rw [if_pos (dear p), if_pos own]
    · have cheap := (cheap_iff a.gate order).mpr cheap
      have own : ¬a.gate.notionalWith order > UInt64.widen a.gate.limits.maxCumulativeNotional := cheap order.price
      rw [if_neg (cheap p), if_neg own]

-- An order that is recorded in such a state has no shares, so its notional is 0 at any price.
theorem Indifferent.record_eq {a : Applied} (indifferent : Indifferent a order) (market : order.type = .market)
    (none : (a.gate.check order).1 = .none) (room : a.accepted.full = false) (later : RiskGate) (p : Price) :
    later.record (order.reprice p) = later.record order := by
  have zero : order.shares = 0 := by
    rw [check_market market] at none
    rcases indifferent with tripped | large | zero | ⟨affordable, exceeded | spent | ⟨-, crowded⟩⟩
    · simp [tripped] at none
    · split_ifs at none
    · exact zero
    · split_ifs at none
    · have own : a.gate.notionalWith order > UInt64.widen a.gate.limits.maxCumulativeNotional := spent.dear order.price
      split_ifs at none
    · rw [room] at crowded
      cases crowded
  have nothing : UInt32.widen order.shares = 0 := by
    rw [zero]
    rfl
  simp [record, ChildOrder.reprice, nothing]

end Check

structure Alike (a b : Applied) : Prop where
  gate : b.gate = a.gate
  count : b.acceptedCount = a.acceptedCount
  reasons : b.reasonsOut = a.reasonsOut
  accepted : List.Forall₂ Agree a.accepted.orders b.accepted.orders

theorem Alike.refl (a : Applied) : Alike a a :=
  ⟨rfl, rfl, rfl, List.forall₂_same.mpr fun _ _ => .inl rfl⟩

section Alike

variable {a b : Applied} (alike : Alike a b) {order other : ChildOrder} (agree : Agree order other)
  (blind : order.type = .market → Indifferent a order)
include alike

theorem Alike.full : b.accepted.full = a.accepted.full := by
  rw [ChildOrderQueue.full, ChildOrderQueue.full, alike.accepted.length_eq]

include agree blind

theorem Alike.verdict (i : Nat) :
    (verdict b i other).reason = (verdict a i order).reason ∧
      (verdict b i other).recorded = (verdict a i order).recorded := by
  have reason : (b.gate.check other).1 = (a.gate.check order).1 := by
    rw [alike.gate]
    rcases agree with rfl | ⟨market, p, rfl⟩
    · rfl
    · exact (blind market).check_eq market p
  have same : (Exec.verdict b i other).reason = (Exec.verdict a i order).reason := reason
  refine ⟨same, ?_⟩
  rw [verdict_recorded_eq, verdict_recorded_eq, alike.full, same]

theorem Alike.applyOne (i : Nat) : Alike (applyOne a i order) (applyOne b i other) := by
  obtain ⟨reason, recorded⟩ := alike.verdict agree blind i
  have latch : (b.gate.check other).2 = (a.gate.check order).2 := by
    rw [check_gate, check_gate, show (b.gate.check other).1 = (a.gate.check order).1 from reason, alike.gate]
  refine ⟨?_, ?_, ?_, ?_⟩
  · rw [applyOne_gate, applyOne_gate, recorded, latch]
    cases kept : (Exec.verdict a i order).recorded with
    | false => rfl
    | true =>
      rw [verdict_recorded_eq, Bool.and_eq_true, decide_eq_true_eq, Bool.not_eq_true'] at kept
      rcases agree with rfl | ⟨market, p, rfl⟩
      · rfl
      · exact (blind market).record_eq market kept.1 kept.2 _ p
  · rw [applyOne_count, applyOne_count, recorded, alike.count]
  · rw [applyOne_reasons, applyOne_reasons, reason, alike.reasons]
  · rw [applyOne_accepted, applyOne_accepted, recorded]
    refine List.rel_append alike.accepted ?_
    split
    · exact .cons agree .nil
    · exact .nil

end Alike

theorem applyLoop_alike {orders others : List ChildOrder} (agree : List.Forall₂ Agree orders others) (i : Nat)
    (a b : Applied) (alike : Alike a b) (blind : PriceBlind orders i a) :
    Alike (applyLoop orders i a) (applyLoop others i b) ∧
      (verdicts orders i a).map Verdict.recorded = (verdicts others i b).map Verdict.recorded := by
  induction agree generalizing i a b with
  | nil => exact ⟨alike, rfl⟩
  | cons head _ ih =>
    obtain ⟨later, positions⟩ := ih (i + 1) _ _ (alike.applyOne head blind.1 i) blind.2
    refine ⟨later, ?_⟩
    rw [verdicts, verdicts, List.map_cons, List.map_cons, positions, (alike.verdict head blind.1 i).2]

theorem fill_agree {order other : ChildOrder} (agree : Agree order other) (sim : FillSimulator) :
    sim.fill other = sim.fill order := by
  rcases agree with rfl | ⟨market, p, rfl⟩
  · rfl
  · have kind : (order.reprice p).type = .market := market
    simp only [FillSimulator.fill, FillSimulator.fillPrice, market, kind]
    rfl

theorem fillAll_agree {orders others : List ChildOrder} (agree : List.Forall₂ Agree orders others)
    (sim : FillSimulator) : fillAll sim orders = fillAll sim others := by
  induction agree generalizing sim with
  | nil => rfl
  | cons head _ ih =>
    simp only [fillAll, List.foldl_cons, fill_agree head] at ih ⊢
    exact ih _

structure SameRun (orders others : List ChildOrder) (i : Nat) (a b : Applied) : Prop where
  reasons : (verdicts orders i a).map Verdict.reason = (verdicts others i b).map Verdict.reason
  positions : (verdicts orders i a).map Verdict.recorded = (verdicts others i b).map Verdict.recorded
  notional : (applyLoop orders i a).gate.cumulativeNotional = (applyLoop others i b).gate.cumulativeNotional

theorem recordedOrders_positions {log log' : List Verdict} (orders : log.map Verdict.order = log'.map Verdict.order)
    (positions : log.map Verdict.recorded = log'.map Verdict.recorded) : recordedOrders log = recordedOrders log' := by
  induction log generalizing log' with
  | nil =>
    rw [List.map_nil, eq_comm, List.map_eq_nil_iff] at orders
    rw [orders]
  | cons v rest ih =>
    cases log' with
    | nil => simp at orders
    | cons w later =>
      simp only [List.map_cons, List.cons.injEq] at orders positions
      rw [recordedOrders_cons, recordedOrders_cons, orders.1, positions.1, ih orders.2 positions.2]

theorem SameRun.totals {orders : List ChildOrder} {i : Nat} {a b : Applied} (same : SameRun orders orders i a b) :
    a.gate.cumulativeNotional = b.gate.cumulativeNotional := by
  have recorded := recordedOrders_positions
    ((verdicts_orders orders i a).trans (verdicts_orders orders i b).symm) same.positions
  have left := (applyLoop_totals orders i a).2
  have right := (applyLoop_totals orders i b).2
  have mine := a.gate.cumulativeNotional.isLt
  have other := b.gate.cumulativeNotional.isLt
  rw [same.notional, right, totalNotional, totalNotional, recorded] at left
  apply BitVec.eq_of_toNat_eq
  omega

-- An order that every price treats alike is never too dear on its own, and the
-- cumulative notional refuses it at every price or at none.
theorem uniform_fate {g : RiskGate} {order : ChildOrder} (market : order.type = .market) (untripped : ¬g.tripped = true)
    (small : ¬order.shares > g.limits.maxOrderShares)
    (uniform : ∀ p, (g.check (order.reprice p)).1 = (g.check order).1) :
    (∀ p, ¬orderNotional (order.reprice p) > g.limits.maxOrderNotional) ∧
      (g.sharesWith order > g.limits.maxCumulativeShares.toUInt64 ∨
        (∀ p, g.notionalWith (order.reprice p) > UInt64.widen g.limits.maxCumulativeNotional) ∨
        (∀ p, ¬g.notionalWith (order.reprice p) > UInt64.widen g.limits.maxCumulativeNotional) ∧
          (g.check order).1 = .none) := by
  have repriced (p : Price) : (order.reprice p).type = .market := market
  have size (p : Price) : (order.reprice p).shares = order.shares := rfl
  have shares (p : Price) : g.sharesWith (order.reprice p) = g.sharesWith order := rfl
  have free : ¬orderNotional (order.reprice 0) > g.limits.maxOrderNotional := by
    rw [orderNotional_free, gt_iff_lt, UInt64.not_lt, UInt64.le_iff_toNat_le]
    exact Nat.zero_le _
  have affordable (p : Price) : ¬orderNotional (order.reprice p) > g.limits.maxOrderNotional := by
    intro dear
    have same := (uniform p).trans (uniform 0).symm
    rw [check_market (repriced p), check_market (repriced 0), size, size, if_neg untripped, if_neg untripped,
      if_neg small, if_neg small, if_pos dear, if_neg free] at same
    split_ifs at same
  refine ⟨affordable, ?_⟩
  by_cases exceeded : g.sharesWith order > g.limits.maxCumulativeShares.toUInt64
  · exact .inl exceeded
  have fate (p : Price) : (g.check order).1 =
      if g.notionalWith (order.reprice p) > UInt64.widen g.limits.maxCumulativeNotional then
        .cumulativeNotionalExceeded
      else .none := by
    rw [← uniform p, check_market (repriced p), size, shares, if_neg untripped, if_neg small, if_neg (affordable p),
      if_neg exceeded]
  by_cases passes : (g.check order).1 = .none
  · refine .inr (.inr ⟨fun p dear => ?_, passes⟩)
    rw [fate p, if_pos dear] at passes
    cases passes
  · refine .inr (.inl fun p => ?_)
    by_contra cheap
    exact passes ((fate p).trans (if_neg cheap))

section Necessary

variable {a : Applied} {order : ChildOrder} {rest : List ChildOrder} {i : Nat}
  (same : ∀ p, SameRun (order :: rest) (order.reprice p :: rest) i a a)
include same

theorem reason_any (p : Price) : (a.gate.check (order.reprice p)).1 = (a.gate.check order).1 := by
  have reasons := (same p).reasons
  simp only [verdicts, List.map_cons, List.cons.injEq] at reasons
  exact reasons.1.symm

theorem unrecorded_or_free : (verdict a i order).recorded = false ∨ order.shares = 0 := by
  cases recorded : (verdict a i order).recorded with
  | false => exact .inl rfl
  | true =>
    refine .inr ?_
    let p : Price := if order.price = 0 then 1 else 0
    have other : p.toNat ≠ order.price.toNat := by
      by_cases zero : order.price = 0
      · simp [p, zero]
      · simpa [p, zero, eq_comm] using fun none => zero (UInt32.toNat_inj.mp none)
    have positions := (same p).positions
    simp only [verdicts, List.map_cons, List.cons.injEq] at positions
    have tail : SameRun rest rest (i + 1) (applyOne a i order) (applyOne a i (order.reprice p)) := by
      have reasons := (same p).reasons
      simp only [verdicts, List.map_cons, List.cons.injEq] at reasons
      exact ⟨reasons.2, positions.2, (same p).notional⟩
    have totals := congrArg BitVec.toNat tail.totals
    rw [(applyOne_totals a i order).2, (applyOne_totals a i (order.reprice p)).2, ← positions.1, recorded, if_pos rfl,
      if_pos rfl] at totals
    have mine := product_lt order.price order.shares
    have yours := product_lt p order.shares
    have equal : order.price.toNat * order.shares.toNat = p.toNat * order.shares.toNat := by
      change (_ + order.price.toNat * order.shares.toNat) % _ = (_ + p.toNat * order.shares.toNat) % _ at totals
      have top := a.gate.cumulativeNotional.isLt
      omega
    rcases Nat.eq_zero_or_pos order.shares.toNat with zero | positive
    · exact UInt32.toNat_inj.mp zero
    · exact absurd (Nat.eq_of_mul_eq_mul_right positive equal).symm other

theorem indifferent_of_same (market : order.type = .market) : Indifferent a order := by
  by_cases tripped : a.gate.tripped = true
  · exact .inl tripped
  by_cases large : order.shares > a.gate.limits.maxOrderShares
  · exact .inr (.inl large)
  by_cases zero : order.shares = 0
  · exact .inr (.inr (.inl zero))
  have positive : 0 < order.shares.toNat := Nat.pos_of_ne_zero fun none => zero (UInt32.toNat_inj.mp none)
  have unrecorded := (unrecorded_or_free same).resolve_right zero
  obtain ⟨affordable, fate⟩ := uniform_fate market tripped large (reason_any same)
  refine .inr (.inr (.inr ⟨(affordable_iff a.gate order).mp affordable, ?_⟩))
  rcases fate with exceeded | dear | ⟨cheap, none⟩
  · exact .inl exceeded
  · exact .inr (.inl ((over_always_iff a.gate order positive).mp dear))
  · refine .inr (.inr ⟨(cheap_iff a.gate order).mp cheap, ?_⟩)
    have reason : (verdict a i order).reason = .none := none
    rw [verdict_recorded_eq, reason] at unrecorded
    simpa using unrecorded

end Necessary

theorem priceBlind_of_same (orders : List ChildOrder) (i : Nat) (a : Applied)
    (same : ∀ others, List.Forall₂ Agree orders others → SameRun orders others i a a) : PriceBlind orders i a := by
  induction orders generalizing i a with
  | nil => trivial
  | cons order rest ih =>
    have unchanged : List.Forall₂ Agree rest rest := List.forall₂_same.mpr fun _ _ => .inl rfl
    refine ⟨fun market => ?_, ih (i + 1) (applyOne a i order) fun others agree => ?_⟩
    · exact indifferent_of_same (fun p => same _ (.cons (.inr ⟨market, p, rfl⟩) unchanged)) market
    · obtain ⟨reasons, positions, notional⟩ := same (order :: others) (.cons (.inl rfl) agree)
      simp only [verdicts, List.map_cons, List.cons.injEq] at reasons positions
      exact ⟨reasons.2, positions.2, notional⟩

theorem sameOutcome_of_blind {gate : RiskGate} {input other accepted : ChildOrderQueue} {reasons : List RejectReason}
    (agree : List.Forall₂ Agree input.orders other.orders) (sim : FillSimulator)
    (blind : PriceBlind input.orders 0 { gate, accepted, acceptedCount := 0, reasonsOut := some reasons }) :
    SameOutcome sim (apply gate input accepted (some reasons)) (apply gate other accepted (some reasons))
      (log gate input accepted reasons) (log gate other accepted reasons) := by
  obtain ⟨alike, positions⟩ := applyLoop_alike agree 0 _ _ (Alike.refl _) blind
  have gates : (apply gate other accepted (some reasons)).gate = (apply gate input accepted (some reasons)).gate :=
    alike.gate
  exact
    { reasons := alike.reasons.symm
      positions := positions
      tripped := by rw [gates]
      shares := by rw [gates]
      notional := by rw [gates]
      fills := fillAll_agree alike.accepted sim }

theorem sameRun_of_sameOutcome {gate : RiskGate} {input other accepted : ChildOrderQueue} {reasons : List RejectReason}
    {sim : FillSimulator} (size : reasons.length = kMaxChildOrders)
    (agree : List.Forall₂ Agree input.orders other.orders)
    (same : SameOutcome sim (apply gate input accepted (some reasons)) (apply gate other accepted (some reasons))
      (log gate input accepted reasons) (log gate other accepted reasons)) :
    SameRun input.orders other.orders 0 { gate, accepted, acceptedCount := 0, reasonsOut := some reasons }
      { gate, accepted, acceptedCount := 0, reasonsOut := some reasons } := by
  have written (queue : ChildOrderQueue) := applyLoop_reasons queue.orders 0
    { gate, accepted, acceptedCount := 0, reasonsOut := some reasons } reasons rfl (by
      have := queue.capacity
      omega)
  have reported := same.reasons
  rw [apply, apply, written input, written other, List.take_zero, List.nil_append, List.nil_append,
    agree.length_eq] at reported
  exact ⟨List.append_cancel_right (Option.some.inj reported), same.positions, same.notional⟩

/-- The prices of an input's Market orders are ignored, by apply and by the fills
of what it forwards, exactly when each of them meets the gate where no price
could make a difference. -/
theorem market_price_ignored_iff (gate : RiskGate) (input accepted : ChildOrderQueue) (reasons : List RejectReason)
    (sim : FillSimulator) (size : reasons.length = kMaxChildOrders) :
    (∀ other : ChildOrderQueue, List.Forall₂ Agree input.orders other.orders →
      SameOutcome sim (apply gate input accepted (some reasons)) (apply gate other accepted (some reasons))
        (log gate input accepted reasons) (log gate other accepted reasons)) ↔
      PriceBlind input.orders 0 { gate, accepted, acceptedCount := 0, reasonsOut := some reasons } := by
  constructor
  · intro same
    refine priceBlind_of_same _ _ _ fun others agree => ?_
    have capacity : others.length ≤ kMaxChildOrders := agree.length_eq ▸ input.capacity
    exact sameRun_of_sameOutcome size agree (same ⟨others, capacity⟩ agree)
  · intro blind other agree
    exact sameOutcome_of_blind agree sim blind

section Priced

def unpriced : ChildOrderQueue := ⟨[{ type := .market, shares := 5 }], by decide⟩
def priced : ChildOrderQueue := ⟨[{ type := .market, price := 100, shares := 5 }], by decide⟩

theorem priced_agree : List.Forall₂ Agree unpriced.orders priced.orders := .cons (.inr ⟨rfl, 100, rfl⟩) .nil

-- A Limit order that fills, a Market order that is too large and one with no shares.
def around (first second : Price) : ChildOrderQueue :=
  ⟨[{ price := 10, shares := 3 }, { type := .market, price := first, shares := 101 },
    { type := .market, price := second }], show 3 ≤ kMaxChildOrders by decide⟩

def quoted : FillSimulator := { bbo := { askPrice := 9 }, lastTradePrice := 8 }

theorem market_price_ignored_filled :
    SameOutcome quoted (apply anyOrder (around 0 0) .empty (some blank))
        (apply anyOrder (around 70 80) .empty (some blank)) (log anyOrder (around 0 0) .empty blank)
        (log anyOrder (around 70 80) .empty blank) ∧
      (fillAll quoted (apply anyOrder (around 70 80) .empty (some blank)).accepted.orders).fills.fills =
        [{ price := 9, shares := 3 }, { price := 8 }] := by
  have agree : List.Forall₂ Agree (around 0 0).orders (around 70 80).orders :=
    .cons (.inl rfl) (.cons (.inr ⟨rfl, 70, rfl⟩) (.cons (.inr ⟨rfl, 80, rfl⟩) .nil))
  have law := market_price_ignored_iff anyOrder (around 0 0) .empty blank quoted blank_length
  refine ⟨law.mpr ⟨nofun, fun _ => .inr (.inl ?_), fun _ => .inr (.inr (.inl rfl)), trivial⟩ _ agree, by decide⟩
  decide

theorem market_price_decides :
    ¬∀ (gate : RiskGate) (input accepted : ChildOrderQueue) (reasons : List RejectReason) (sim : FillSimulator),
      reasons.length = kMaxChildOrders →
        ∀ other : ChildOrderQueue, List.Forall₂ Agree input.orders other.orders →
          SameOutcome sim (apply gate input accepted (some reasons)) (apply gate other accepted (some reasons))
            (log gate input accepted reasons) (log gate other accepted reasons) := by
  intro always
  have same := always anyOrder unpriced .empty blank {} blank_length priced priced_agree
  exact absurd same.positions (by decide)

end Priced

end ItchLob.Exec
