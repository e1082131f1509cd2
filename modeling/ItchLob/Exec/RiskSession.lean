import ItchLob.Exec.RiskGate

set_option autoImplicit false

namespace ItchLob.Exec

open RiskGate

/-- One check made by apply: the gate it met, what it answered, and whether apply
put the order into the accepted queue. -/
structure Verdict where
  gate : RiskGate
  order : ChildOrder
  reason : RejectReason
  recorded : Bool

def verdict (a : Applied) (i : Nat) (order : ChildOrder) : Verdict :=
  { gate := a.gate
    order
    reason := (a.gate.check order).1
    recorded := a.accepted.orders.length < (applyOne a i order).accepted.orders.length }

def verdicts : List ChildOrder → Nat → Applied → List Verdict
  | [], _, _ => []
  | order :: rest, i, a => verdict a i order :: verdicts rest (i + 1) (applyOne a i order)

def recordedOrders (log : List Verdict) : List ChildOrder := (log.filter Verdict.recorded).map Verdict.order

def totalShares (log : List Verdict) : Nat := ((recordedOrders log).map fun o => o.shares.toNat).sum
def totalNotional (log : List Verdict) : Nat := ((recordedOrders log).map notional).sum

section Loop

variable (a : Applied) (i : Nat) (order : ChildOrder)

theorem applyOne_cases :
    ((verdict a i order).recorded = true ∧ (verdict a i order).reason = .none ∧ a.accepted.full = false ∧
        (applyOne a i order).accepted.orders = a.accepted.orders ++ [order] ∧
        (applyOne a i order).acceptedCount = a.acceptedCount + 1 ∧
        (applyOne a i order).gate = (a.gate.check order).2.record order) ∨
      ((verdict a i order).recorded = false ∧ ((verdict a i order).reason = .none → a.accepted.full = true) ∧
        (applyOne a i order).accepted.orders = a.accepted.orders ∧
        (applyOne a i order).acceptedCount = a.acceptedCount ∧
        (applyOne a i order).gate = (a.gate.check order).2) := by
  simp only [verdict, applyOne]
  by_cases none : (a.gate.check order).1 = .none
  · cases crowded : a.accepted.full with
    | true => simp [none, ChildOrderQueue.push_full crowded]
    | false => simp [none, ChildOrderQueue.push_accepts crowded order]
  · simp [none]

theorem verdict_recorded_eq :
    (verdict a i order).recorded = ((verdict a i order).reason = .none && !a.accepted.full) := by
  obtain ⟨recorded, none, room, -⟩ | ⟨refused, crowded, -⟩ := applyOne_cases a i order
  · simp [recorded, none, room]
  · by_cases none : (verdict a i order).reason = .none
    · simp [refused, crowded none]
    · simp [refused, none]

theorem applyOne_accepted :
    (applyOne a i order).accepted.orders =
      a.accepted.orders ++ if (verdict a i order).recorded then [order] else [] := by
  obtain ⟨recorded, -, -, pushed, -⟩ | ⟨refused, -, same, -⟩ := applyOne_cases a i order
  · rw [pushed, recorded, if_pos rfl]
  · rw [same, refused, if_neg Bool.false_ne_true, List.append_nil]

theorem applyOne_count :
    (applyOne a i order).acceptedCount = a.acceptedCount + if (verdict a i order).recorded then 1 else 0 := by
  obtain ⟨recorded, -, -, -, counted, -⟩ | ⟨refused, -, -, same, -⟩ := applyOne_cases a i order
  · rw [counted, recorded, if_pos rfl]
  · rw [same, refused, if_neg Bool.false_ne_true, Nat.add_zero]

theorem applyOne_gate :
    (applyOne a i order).gate =
      if (verdict a i order).recorded then (a.gate.check order).2.record order else (a.gate.check order).2 := by
  obtain ⟨recorded, -, -, -, -, gate⟩ | ⟨refused, -, -, -, gate⟩ := applyOne_cases a i order
  · rw [gate, recorded, if_pos rfl]
  · rw [gate, refused, if_neg Bool.false_ne_true]

variable {a i order}

theorem verdict_recorded (recorded : (verdict a i order).recorded) :
    (verdict a i order).reason = .none ∧ Passes a.gate order := by
  have none : (a.gate.check order).1 = .none := by
    rw [verdict_recorded_eq, Bool.and_eq_true, decide_eq_true_eq] at recorded
    exact recorded.1
  exact ⟨none, check_passes none⟩

end Loop

theorem verdicts_orders (orders : List ChildOrder) (i : Nat) (a : Applied) :
    (verdicts orders i a).map Verdict.order = orders := by
  induction orders generalizing i a with
  | nil => rfl
  | cons order rest ih => rw [verdicts, List.map_cons, ih]; rfl

theorem recordedOrders_cons (v : Verdict) (log : List Verdict) :
    recordedOrders (v :: log) = (if v.recorded then [v.order] else []) ++ recordedOrders log := by
  cases kept : v.recorded <;> simp [recordedOrders, kept]

theorem recordedOrders_append (log : List Verdict) (v : Verdict) :
    recordedOrders (log ++ [v]) = if v.recorded then recordedOrders log ++ [v.order] else recordedOrders log := by
  cases kept : v.recorded <;> simp [recordedOrders, List.filter_append, kept]

theorem applyLoop_accepted (orders : List ChildOrder) (i : Nat) (a : Applied) :
    (applyLoop orders i a).accepted.orders = a.accepted.orders ++ recordedOrders (verdicts orders i a) := by
  induction orders generalizing i a with
  | nil => simp [applyLoop, verdicts, recordedOrders]
  | cons order rest ih =>
    rw [applyLoop, ih, applyOne_accepted, verdicts, recordedOrders_cons, List.append_assoc]
    rfl

theorem applyLoop_count (orders : List ChildOrder) (i : Nat) (a : Applied) :
    (applyLoop orders i a).acceptedCount = a.acceptedCount + (recordedOrders (verdicts orders i a)).length := by
  induction orders generalizing i a with
  | nil => rfl
  | cons order rest ih =>
    rw [applyLoop, ih, applyOne_count, verdicts, recordedOrders_cons, List.length_append]
    cases (verdict a i order).recorded with
    | true =>
      simp only [if_true, List.length_singleton]
      omega
    | false => simp

structure Session where
  gate : RiskGate
  log : List Verdict := []

inductive Op where
  | apply (input accepted : ChildOrderQueue) (reasonsOut : Option (List RejectReason))
  | setReferencePrice (p : Price)
  | reset

namespace Session

def step (s : Session) : Op → Session
  | .apply input accepted reasonsOut =>
    { gate := (apply s.gate input accepted reasonsOut).gate
      log := s.log ++
        verdicts input.orders 0 { gate := s.gate, accepted, acceptedCount := 0, reasonsOut } }
  | .setReferencePrice p => { s with gate := s.gate.setReferencePrice p }
  | .reset => { gate := s.gate.reset }

def run (limits : RiskLimits) (referencePrice : Price) (ops : List Op) : Session :=
  ops.foldl step { gate := { limits, referencePrice } }

end Session

-- Exact integers throughout.
structure WithinOrderLimits (limits : RiskLimits) (v : Verdict) : Prop where
  shares : v.order.shares.toNat ≤ limits.maxOrderShares.toNat
  notional : notional v.order ≤ limits.maxOrderNotional.toNat
  collar : v.order.type = .limit → v.gate.referencePrice ≠ 0 →
    |(v.order.price.toNat : Int) - v.gate.referencePrice.toNat| ≤
      ((v.gate.referencePrice.toNat * limits.priceCollarBps.toNat / 10000 : Nat) : Int)

structure Accounted (limits : RiskLimits) (s : Session) : Prop where
  fixed : s.gate.limits = limits
  shares : s.gate.cumulativeShares.toNat = totalShares s.log
  notional : s.gate.cumulativeNotional.toNat = totalNotional s.log
  sharesBound : totalShares s.log ≤ limits.maxCumulativeShares.toNat
  notionalBound : totalNotional s.log ≤ limits.maxCumulativeNotional.toNat
  orders : ∀ v ∈ s.log, v.recorded → WithinOrderLimits limits v
  exact : ∀ v ∈ s.log, Exact v.gate v.order
  latched : ∀ v ∈ s.log, v.reason.cumulative → s.gate.tripped
  silent : s.log.Pairwise fun earlier later =>
    earlier.reason.cumulative → later.reason = .killSwitchTripped ∧ later.recorded = false

theorem Accounted.exact_next {limits : RiskLimits} {s : Session} (accounted : Accounted limits s)
    (order : ChildOrder) : Exact s.gate order := by
  apply exact_of_small
  · have := accounted.sharesBound
    have := limits.maxCumulativeShares.toNat_lt
    rw [accounted.shares]
    omega
  · have := accounted.notionalBound
    have := limits.maxCumulativeNotional.toNat_lt
    rw [accounted.notional]
    omega

section Step

variable {limits : RiskLimits} {a : Applied} {log : List Verdict}
  (accounted : Accounted limits { gate := a.gate, log }) (i : Nat) (order : ChildOrder)
include accounted

theorem Accounted.within (recorded : (verdict a i order).recorded) :
    WithinOrderLimits limits (verdict a i order) := by
  have passes := (verdict_recorded recorded).2
  have exact : Exact a.gate order := accounted.exact_next order
  have fixed : a.gate.limits = limits := accounted.fixed
  refine { shares := ?_, notional := ?_, collar := ?_ }
  · rw [← fixed]
    exact UInt32.le_iff_toNat_le.mp passes.size
  · rw [← fixed]
    exact exact.orderNotional ▸ UInt64.le_iff_toNat_le.mp passes.notional
  · intro limit priced
    have near := UInt64.le_iff_toNat_le.mp (passes.collar limit priced)
    rw [UInt32.toNat_toUInt64, exact.diff, allowedDeviation, UInt64.toNat_div, exact.deviation] at near
    rw [← fixed]
    change |(order.price.toNat : Int) - a.gate.referencePrice.toNat| ≤
      ((a.gate.referencePrice.toNat * a.gate.limits.priceCollarBps.toNat / 10000 : Nat) : Int)
    generalize a.gate.referencePrice.toNat * a.gate.limits.priceCollarBps.toNat = width at near ⊢
    change _ ≤ width / 10000 at near
    rw [abs_le]
    split at near <;> omega

theorem Accounted.silenced {v : Verdict} (member : v ∈ log) (cumulative : v.reason.cumulative) :
    (verdict a i order).reason = .killSwitchTripped ∧ (verdict a i order).recorded = false := by
  have answer : (a.gate.check order).1 = .killSwitchTripped :=
    check_tripped (accounted.latched v member cumulative)
  exact ⟨answer, by rw [verdict_recorded_eq, show (verdict a i order).reason = .killSwitchTripped from answer]; rfl⟩

theorem Accounted.append {gate : RiskGate} (fixed : gate.limits = limits)
    (shares : gate.cumulativeShares.toNat = totalShares (log ++ [verdict a i order]))
    (notional : gate.cumulativeNotional.toNat = totalNotional (log ++ [verdict a i order]))
    (sharesBound : totalShares (log ++ [verdict a i order]) ≤ limits.maxCumulativeShares.toNat)
    (notionalBound : totalNotional (log ++ [verdict a i order]) ≤ limits.maxCumulativeNotional.toNat)
    (latched : ∀ v ∈ log ++ [verdict a i order], v.reason.cumulative → gate.tripped) :
    Accounted limits { gate, log := log ++ [verdict a i order] } := by
  have silent : (log ++ [verdict a i order]).Pairwise fun earlier later =>
      earlier.reason.cumulative → later.reason = .killSwitchTripped ∧ later.recorded = false := by
    rw [List.pairwise_append]
    refine ⟨accounted.silent, List.pairwise_singleton _ _, ?_⟩
    intro v member w last cumulative
    rw [List.mem_singleton] at last
    subst last
    exact accounted.silenced i order member cumulative
  exact
    { fixed, shares, notional, sharesBound, notionalBound, latched, silent
      orders := List.forall_mem_append.mpr
        ⟨accounted.orders, List.forall_mem_singleton.mpr (accounted.within i order)⟩
      exact := List.forall_mem_append.mpr
        ⟨accounted.exact, List.forall_mem_singleton.mpr (accounted.exact_next order)⟩ }

theorem Accounted.recorded (recorded : (verdict a i order).recorded = true) :
    Accounted limits { gate := (applyOne a i order).gate, log := log ++ [verdict a i order] } := by
  have exact : Exact a.gate order := accounted.exact_next order
  have fixed : a.gate.limits = limits := accounted.fixed
  obtain ⟨none, passes⟩ := verdict_recorded recorded
  have unlatched : (a.gate.check order).2 = a.gate := by
    rw [check_gate, passes.untripped, show (a.gate.check order).1 = .none from none]
    exact congrArg (fun t => { a.gate with tripped := t }) passes.untripped.symm
  have gate : (applyOne a i order).gate = a.gate.record order := by
    rw [applyOne_gate, recorded, if_pos rfl, unlatched]
  have ledger : recordedOrders (log ++ [verdict a i order]) = recordedOrders log ++ [order] := by
    rw [recordedOrders_append, if_pos recorded]
    rfl
  have shares : totalShares (log ++ [verdict a i order]) = totalShares log + order.shares.toNat := by
    simp [totalShares, ledger]
  have total : totalNotional (log ++ [verdict a i order]) = totalNotional log + RiskGate.notional order := by
    simp [totalNotional, ledger]
  have sharesFit := UInt64.le_iff_toNat_le.mp passes.cumulativeShares
  have totalFits := BitVec.le_def.mp passes.cumulativeNotional
  rw [exact.sharesWith, UInt32.toNat_toUInt64, fixed] at sharesFit
  rw [exact.notionalWith, fixed, UInt64.widen, BitVec.toNat_setWidth] at totalFits
  have sharesNow : a.gate.cumulativeShares.toNat = totalShares log := accounted.shares
  have totalNow : a.gate.cumulativeNotional.toNat = totalNotional log := accounted.notional
  rw [gate]
  refine accounted.append i order fixed ?_ ?_ ?_ ?_ ?_
  · rw [exact.recordedShares, sharesNow, shares]
  · rw [exact.recordedNotional, totalNow, total]
  · rw [shares, ← sharesNow]
    exact sharesFit
  · rw [total, ← totalNow]
    exact Nat.le_trans totalFits (Nat.mod_le _ _)
  · refine List.forall_mem_append.mpr ⟨accounted.latched, List.forall_mem_singleton.mpr ?_⟩
    intro cumulative
    rw [none] at cumulative
    cases cumulative

theorem Accounted.refused (refused : (verdict a i order).recorded = false) :
    Accounted limits { gate := (applyOne a i order).gate, log := log ++ [verdict a i order] } := by
  have gate : (applyOne a i order).gate =
      { a.gate with tripped := a.gate.tripped || (a.gate.check order).1.cumulative } := by
    rw [applyOne_gate, refused, if_neg (by decide), check_gate]
  have ledger : recordedOrders (log ++ [verdict a i order]) = recordedOrders log := by
    rw [recordedOrders_append, refused, if_neg (by decide)]
  have shares : totalShares (log ++ [verdict a i order]) = totalShares log := by
    rw [totalShares, ledger]
    rfl
  have total : totalNotional (log ++ [verdict a i order]) = totalNotional log := by
    rw [totalNotional, ledger]
    rfl
  rw [gate]
  refine accounted.append i order accounted.fixed (accounted.shares.trans shares.symm)
    (accounted.notional.trans total.symm) (shares ▸ accounted.sharesBound) (total ▸ accounted.notionalBound) ?_
  simp only [Bool.or_eq_true]
  exact List.forall_mem_append.mpr ⟨fun v earlier cumulative => .inl (accounted.latched v earlier cumulative),
    List.forall_mem_singleton.mpr .inr⟩

theorem Accounted.applyOne :
    Accounted limits { gate := (applyOne a i order).gate, log := log ++ [verdict a i order] } := by
  cases kept : (verdict a i order).recorded with
  | true => exact accounted.recorded i order kept
  | false => exact accounted.refused i order kept

end Step

section Runs

variable {limits : RiskLimits}

theorem Accounted.applyLoop {log : List Verdict} (orders : List ChildOrder) (i : Nat) (a : Applied)
    (accounted : Accounted limits { gate := a.gate, log }) :
    Accounted limits { gate := (applyLoop orders i a).gate, log := log ++ verdicts orders i a } := by
  induction orders generalizing i a log with
  | nil => simpa [Exec.applyLoop, verdicts] using accounted
  | cons order rest ih =>
    have later := ih (i + 1) (Exec.applyOne a i order) (accounted.applyOne i order)
    rwa [List.append_assoc, List.singleton_append] at later

theorem accounted_fresh {g : RiskGate} (fixed : g.limits = limits) (shares : g.cumulativeShares = 0)
    (total : g.cumulativeNotional = 0) : Accounted limits { gate := g } where
  fixed := fixed
  shares := by rw [shares]; rfl
  notional := by rw [total]; rfl
  sharesBound := Nat.zero_le _
  notionalBound := Nat.zero_le _
  orders := by simp
  exact := by simp
  latched := by simp
  silent := List.Pairwise.nil

theorem Accounted.step {s : Session} (accounted : Accounted limits s) (op : Op) :
    Accounted limits (s.step op) := by
  cases op with
  | apply input accepted reasonsOut =>
    exact Accounted.applyLoop input.orders 0 { gate := s.gate, accepted, acceptedCount := 0, reasonsOut }
      accounted
  | setReferencePrice p => exact { accounted with }
  | reset => exact accounted_fresh accounted.fixed rfl rfl

theorem run_accounted (limits : RiskLimits) (referencePrice : Price) (ops : List Op) :
    Accounted limits (Session.run limits referencePrice ops) := by
  have general (s : Session) (accounted : Accounted limits s) : Accounted limits (ops.foldl Session.step s) := by
    induction ops generalizing s with
    | nil => exact accounted
    | cons op rest ih => exact ih (s.step op) (accounted.step op)
  exact general _ (accounted_fresh rfl rfl rfl)

theorem Accounted.closed {log : List Verdict} (orders : List ChildOrder) (i : Nat) (a : Applied)
    (accounted : Accounted limits { gate := a.gate, log }) (exceeded : ∃ v ∈ log, v.reason.cumulative) :
    recordedOrders (verdicts orders i a) = [] := by
  obtain ⟨v, member, cumulative⟩ := exceeded
  have silent := (accounted.applyLoop orders i).silent
  rw [List.pairwise_append] at silent
  have none : (verdicts orders i a).filter Verdict.recorded = [] := by
    rw [List.filter_eq_nil_iff]
    intro w later
    simp [(silent.2.2 v member w later cumulative).2]
  rw [recordedOrders, none, List.map_nil]

/-- The gate's limits hold over whole runs. The log is what apply did since the last reset: the
orders recorded there are those it put into the accepted queues, the gate's totals are theirs,
and every bound is one on exact integers. -/
theorem limits_hold (limits : RiskLimits) (referencePrice : Price) (ops : List Op) :
    let s := Session.run limits referencePrice ops
    (totalShares s.log ≤ limits.maxCumulativeShares.toNat ∧ totalNotional s.log ≤ limits.maxCumulativeNotional.toNat) ∧
    (s.gate.cumulativeShares.toNat = totalShares s.log ∧ s.gate.cumulativeNotional.toNat = totalNotional s.log) ∧
    (∀ v ∈ s.log, v.recorded → WithinOrderLimits limits v) ∧
    (s.log.Pairwise fun earlier later =>
      earlier.reason.cumulative → later.reason = .killSwitchTripped ∧ later.recorded = false) ∧
    (∀ v ∈ s.log, v.reason.cumulative → ∀ order, (s.gate.check order).1 = .killSwitchTripped) ∧
    (∀ input accepted reasonsOut,
      let out := apply s.gate input accepted reasonsOut
      ∃ made, s.step (.apply input accepted reasonsOut) = { gate := out.gate, log := s.log ++ made } ∧
        made.map Verdict.order = input.orders ∧
        out.accepted.orders = accepted.orders ++ recordedOrders made ∧
        out.acceptedCount = (recordedOrders made).length ∧
        ((∃ v ∈ s.log, v.reason.cumulative) → recordedOrders made = [])) ∧
    (∀ v ∈ s.log, Exact v.gate v.order) ∧
    ∀ order, Exact s.gate order := by
  intro s
  have accounted : Accounted limits s := run_accounted limits referencePrice ops
  refine ⟨⟨accounted.sharesBound, accounted.notionalBound⟩, ⟨accounted.shares, accounted.notional⟩, accounted.orders,
    accounted.silent, fun v member cumulative _ => check_tripped (accounted.latched v member cumulative), ?_,
    accounted.exact, accounted.exact_next⟩
  intro input accepted reasonsOut out
  let start : Applied := { gate := s.gate, accepted, acceptedCount := 0, reasonsOut }
  refine ⟨verdicts input.orders 0 start, rfl, verdicts_orders .., applyLoop_accepted .., ?_, ?_⟩
  · have counted := applyLoop_count input.orders 0 start
    rwa [Nat.zero_add] at counted
  · exact accounted.closed input.orders 0 start

end Runs

end ItchLob.Exec
