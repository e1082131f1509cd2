import ItchLob.Exec.RiskSession

set_option autoImplicit false

namespace ItchLob.Exec

open RiskGate

section Loop

variable (a : Applied) (i : Nat) (order : ChildOrder)

theorem applyOne_reasons :
    (applyOne a i order).reasonsOut = a.reasonsOut.map fun reasons => reasons.set i (verdict a i order).reason := by
  simp only [applyOne, verdict]
  split_ifs <;> rfl

theorem applyOne_totals :
    (applyOne a i order).gate.cumulativeShares.toNat =
        (a.gate.cumulativeShares.toNat + if (verdict a i order).recorded then order.shares.toNat else 0) % 2 ^ 64 ∧
      (applyOne a i order).gate.cumulativeNotional.toNat =
        (a.gate.cumulativeNotional.toNat + if (verdict a i order).recorded then notional order else 0) % 2 ^ 128 := by
  have shares := a.gate.cumulativeShares.toNat_lt
  have total := a.gate.cumulativeNotional.isLt
  rw [applyOne_gate, check_gate]
  cases (verdict a i order).recorded with
  | true =>
    simp only [if_true, record, UInt64.toNat_add, UInt32.toNat_toUInt64, BitVec.toNat_add, widen_product, notional,
      and_self]
  | false => simp [Nat.mod_eq_of_lt shares, Nat.mod_eq_of_lt total]

end Loop

theorem applyLoop_totals (orders : List ChildOrder) (i : Nat) (a : Applied) :
    (applyLoop orders i a).gate.cumulativeShares.toNat =
        (a.gate.cumulativeShares.toNat + totalShares (verdicts orders i a)) % 2 ^ 64 ∧
      (applyLoop orders i a).gate.cumulativeNotional.toNat =
        (a.gate.cumulativeNotional.toNat + totalNotional (verdicts orders i a)) % 2 ^ 128 := by
  induction orders generalizing i a with
  | nil =>
    have shares := a.gate.cumulativeShares.toNat_lt
    have total := a.gate.cumulativeNotional.isLt
    simp [applyLoop, verdicts, totalShares, totalNotional, recordedOrders, Nat.mod_eq_of_lt shares,
      Nat.mod_eq_of_lt total]
  | cons order rest ih =>
    obtain ⟨shares, total⟩ := applyOne_totals a i order
    obtain ⟨moreShares, moreTotal⟩ := ih (i + 1) (applyOne a i order)
    rw [applyLoop, moreShares, moreTotal, shares, total, verdicts]
    simp only [totalShares, totalNotional, recordedOrders_cons]
    cases (verdict a i order).recorded with
    | true =>
      simp [verdict]
      omega
    | false => simp

theorem applyLoop_reasons (orders : List ChildOrder) (i : Nat) (a : Applied) (reasons : List RejectReason)
    (given : a.reasonsOut = some reasons) (size : i + orders.length ≤ reasons.length) :
    (applyLoop orders i a).reasonsOut =
      some (reasons.take i ++ (verdicts orders i a).map Verdict.reason ++ reasons.drop (i + orders.length)) := by
  induction orders generalizing i a reasons with
  | nil => simp [applyLoop, verdicts, given]
  | cons order rest ih =>
    simp only [List.length_cons] at size
    have written := applyOne_reasons a i order
    rw [given, Option.map_some] at written
    have inside : i < reasons.length := by omega
    have before : (reasons.set i (verdict a i order).reason).take (i + 1) =
        reasons.take i ++ [(verdict a i order).reason] := by
      rw [List.take_add_one, List.take_set_of_le (Nat.le_refl i), List.getElem?_set_self inside]
      rfl
    have after : (reasons.set i (verdict a i order).reason).drop (i + 1 + rest.length) =
        reasons.drop (i + (rest.length + 1)) := by
      rw [List.drop_set_of_lt (by omega)]
      congr 1
      omega
    rw [applyLoop, ih (i + 1) _ _ written (by rw [List.length_set]; omega), before, after, verdicts, List.map_cons,
      List.length_cons]
    simp only [List.append_assoc, List.singleton_append]

def passed (orders : List ChildOrder) (reasons : List RejectReason) : List ChildOrder :=
  ((orders.zip reasons).filter fun pair => pair.2 = .none).map Prod.fst

structure Partitions (gate : RiskGate) (input accepted : ChildOrderQueue) (r : Applied) (out : List RejectReason) :
    Prop where
  reasons : r.reasonsOut = some out
  forwarded : r.accepted.orders = accepted.orders ++ passed input.orders out
  counted : r.acceptedCount = (passed input.orders out).length
  shares : r.gate.cumulativeShares.toNat = gate.cumulativeShares.toNat + sharesOf (passed input.orders out)
  notional : r.gate.cumulativeNotional.toNat =
    gate.cumulativeNotional.toNat + ((passed input.orders out).map notional).sum

-- The orders that pass check when every order before them that passed was recorded.
def passing : RiskGate → List ChildOrder → List ChildOrder
  | _, [] => []
  | g, order :: rest =>
    if (g.check order).1 = .none then order :: passing ((g.check order).2.record order) rest
    else passing (g.check order).2 rest

def Lossless (log : List Verdict) : Prop := ∀ v ∈ log, v.reason = .none → v.recorded = true

theorem passed_verdicts (orders : List ChildOrder) (i : Nat) (a : Applied) (tail : List RejectReason) :
    passed orders ((verdicts orders i a).map Verdict.reason ++ tail) =
      ((verdicts orders i a).filter fun v => v.reason = .none).map Verdict.order := by
  induction orders generalizing i a with
  | nil => rfl
  | cons order rest ih =>
    have later := ih (i + 1) (applyOne a i order)
    simp only [passed] at later
    simp only [passed, verdicts, List.map_cons, List.cons_append, List.zip_cons_cons, List.filter_cons]
    split_ifs
    · rw [List.map_cons, List.map_cons, later]
      rfl
    · exact later

theorem recorded_reason (orders : List ChildOrder) (i : Nat) (a : Applied) :
    ∀ v ∈ verdicts orders i a, v.recorded = true → v.reason = .none := by
  induction orders generalizing i a with
  | nil => simp [verdicts]
  | cons order rest ih =>
    rw [verdicts, List.forall_mem_cons]
    exact ⟨fun recorded => (verdict_recorded recorded).1, ih (i + 1) (applyOne a i order)⟩

theorem recordedOrders_eq_iff (log : List Verdict) (sound : ∀ v ∈ log, v.recorded = true → v.reason = .none) :
    recordedOrders log = (log.filter fun v => v.reason = .none).map Verdict.order ↔ Lossless log := by
  have sifted : (log.filter fun v => v.reason = .none).filter Verdict.recorded = log.filter Verdict.recorded := by
    rw [List.filter_filter]
    refine List.filter_congr fun v member => ?_
    cases kept : v.recorded with
    | true => simp [sound v member kept]
    | false => simp
  constructor
  · intro same v member none
    have length := congrArg List.length same
    simp only [recordedOrders, List.length_map, ← sifted] at length
    have whole := List.filter_eq_self.mp (List.filter_sublist.eq_of_length length)
    exact whole v (List.mem_filter.mpr ⟨member, by simpa using none⟩)
  · intro lossless
    rw [recordedOrders, ← sifted]
    congr 1
    refine List.filter_eq_self.mpr fun v member => ?_
    obtain ⟨inLog, none⟩ := List.mem_filter.mp member
    exact lossless v inLog (by simpa using none)

theorem lossless_iff_room (orders : List ChildOrder) (i : Nat) (a : Applied) :
    Lossless (verdicts orders i a) ↔
      a.accepted.orders.length + (passing a.gate orders).length ≤ kMaxChildOrders := by
  induction orders generalizing i a with
  | nil =>
    have capacity := a.accepted.capacity
    simpa [Lossless, verdicts, passing] using capacity
  | cons order rest ih =>
    have later := ih (i + 1) (applyOne a i order)
    have queue := applyOne_accepted a i order
    have gate := applyOne_gate a i order
    have kept := verdict_recorded_eq a i order
    rw [Lossless, verdicts, List.forall_mem_cons]
    change (_ ∧ Lossless (verdicts rest (i + 1) (applyOne a i order))) ↔ _
    rw [later, passing]
    by_cases none : (a.gate.check order).1 = .none
    · have reason : (verdict a i order).reason = .none := none
      rw [reason] at kept
      cases crowded : a.accepted.full with
      | true =>
        have full : kMaxChildOrders ≤ a.accepted.orders.length := by
          simpa [ChildOrderQueue.full] using crowded
        rw [crowded] at kept
        simp only [reason, kept, none, if_true, List.length_cons]
        constructor
        · rintro ⟨lost, -⟩
          simp at lost
        · intro room
          omega
      | false =>
        rw [crowded] at kept
        simp only [kept] at queue gate
        rw [gate, queue, if_pos none]
        simp only [reason, kept, decide_true, Bool.not_false, Bool.and_self, if_true, List.length_append,
          List.length_cons, List.length_nil, implies_true, true_and]
        omega
    · have reason : (verdict a i order).reason ≠ .none := none
      have unrecorded : (verdict a i order).recorded = false := by simp [kept, reason]
      rw [unrecorded] at queue gate
      rw [gate, queue, if_neg none]
      simp [reason]

theorem recordedOrders_passing (orders : List ChildOrder) (i : Nat) (a : Applied)
    (lossless : Lossless (verdicts orders i a)) :
    recordedOrders (verdicts orders i a) = passing a.gate orders := by
  induction orders generalizing i a with
  | nil => rfl
  | cons order rest ih =>
    rw [Lossless, verdicts, List.forall_mem_cons] at lossless
    have later := ih (i + 1) (applyOne a i order) lossless.2
    have gate := applyOne_gate a i order
    rw [verdicts, recordedOrders_cons, later, passing]
    by_cases none : (a.gate.check order).1 = .none
    · have recorded := lossless.1 none
      rw [recorded] at gate
      rw [recorded, if_pos rfl, if_pos none, gate, if_pos rfl]
      rfl
    · have unrecorded : (verdict a i order).recorded = false := by
        have reason : (verdict a i order).reason ≠ .none := none
        simp [verdict_recorded_eq, reason]
      rw [unrecorded] at gate
      rw [unrecorded, if_neg none, gate]
      rfl

section Partition

variable (gate : RiskGate) (input accepted : ChildOrderQueue) (reasons : List RejectReason)

def log : List Verdict :=
  verdicts input.orders 0 { gate, accepted, acceptedCount := 0, reasonsOut := some reasons }

variable (size : reasons.length = kMaxChildOrders)
include size

theorem apply_reasons :
    ∃ out, (apply gate input accepted (some reasons)).reasonsOut = some out ∧
      passed input.orders out =
        ((log gate input accepted reasons).filter fun v => v.reason = .none).map Verdict.order := by
  have fits : 0 + input.orders.length ≤ reasons.length := by
    have := input.capacity
    omega
  have written := applyLoop_reasons input.orders 0 { gate, accepted, acceptedCount := 0, reasonsOut := some reasons }
    reasons rfl fits
  rw [List.take_zero, List.nil_append] at written
  exact ⟨_, written, passed_verdicts input.orders 0 _ _⟩

variable {gate input accepted reasons}

theorem Partitions.lossless {out : List RejectReason}
    (partition : Partitions gate input accepted (apply gate input accepted (some reasons)) out) :
    Lossless (log gate input accepted reasons) ∧ passed input.orders out = passing gate input.orders := by
  obtain ⟨out', written, chosen⟩ := apply_reasons gate input accepted reasons size
  obtain rfl := Option.some.inj (written.symm.trans partition.reasons)
  have forwarded := applyLoop_accepted input.orders 0 { gate, accepted, acceptedCount := 0, reasonsOut := some reasons }
  have same := recordedOrders_eq_iff (log gate input accepted reasons) (recorded_reason input.orders 0 _)
  have lossless : Lossless (log gate input accepted reasons) := by
    rw [← same, ← chosen]
    exact List.append_cancel_left (forwarded.symm.trans partition.forwarded)
  refine ⟨lossless, ?_⟩
  rw [chosen, ← same.mpr lossless]
  exact recordedOrders_passing input.orders 0 _ lossless

theorem partitions_of_lossless (lossless : Lossless (log gate input accepted reasons))
    (shares : gate.cumulativeShares.toNat + sharesOf (passing gate input.orders) < 2 ^ 64)
    (total : gate.cumulativeNotional.toNat + ((passing gate input.orders).map notional).sum < 2 ^ 128) :
    ∃ out, Partitions gate input accepted (apply gate input accepted (some reasons)) out := by
  obtain ⟨out, written, chosen⟩ := apply_reasons gate input accepted reasons size
  have same := recordedOrders_eq_iff (log gate input accepted reasons) (recorded_reason input.orders 0 _)
  have recorded : recordedOrders (log gate input accepted reasons) = passing gate input.orders :=
    recordedOrders_passing input.orders 0 _ lossless
  rw [← same.mpr lossless, recorded] at chosen
  have forwarded := applyLoop_accepted input.orders 0 { gate, accepted, acceptedCount := 0, reasonsOut := some reasons }
  have counted := applyLoop_count input.orders 0 { gate, accepted, acceptedCount := 0, reasonsOut := some reasons }
  have totals := applyLoop_totals input.orders 0 { gate, accepted, acceptedCount := 0, reasonsOut := some reasons }
  change _ = accepted.orders ++ recordedOrders (log gate input accepted reasons) at forwarded
  change _ = 0 + (recordedOrders (log gate input accepted reasons)).length at counted
  change _ = (_ + sharesOf (recordedOrders (log gate input accepted reasons))) % _ ∧
    _ = (_ + ((recordedOrders (log gate input accepted reasons)).map notional).sum) % _ at totals
  rw [recorded] at forwarded counted totals
  rw [← chosen] at forwarded counted totals shares total
  rw [Nat.zero_add] at counted
  rw [Nat.mod_eq_of_lt shares, Nat.mod_eq_of_lt total] at totals
  exact ⟨out, written, forwarded, counted, totals.1, totals.2⟩

variable (gate input accepted reasons)

/-- apply partitions its input exactly when the accepted queue has room for every
order the gate passes and the running totals do not wrap their 64 and 128 bits. -/
theorem apply_partitions_iff :
    (∃ out, Partitions gate input accepted (apply gate input accepted (some reasons)) out) ↔
      accepted.orders.length + (passing gate input.orders).length ≤ kMaxChildOrders ∧
        gate.cumulativeShares.toNat + sharesOf (passing gate input.orders) < 2 ^ 64 ∧
        gate.cumulativeNotional.toNat + ((passing gate input.orders).map notional).sum < 2 ^ 128 := by
  have room := lossless_iff_room input.orders 0 { gate, accepted, acceptedCount := 0, reasonsOut := some reasons }
  change Lossless (log gate input accepted reasons) ↔ _ at room
  constructor
  · intro ⟨out, partition⟩
    obtain ⟨lossless, equal⟩ := partition.lossless size
    refine ⟨room.mp lossless, ?_, ?_⟩
    · rw [← equal, ← partition.shares]
      exact UInt64.toNat_lt _
    · rw [← equal, ← partition.notional]
      exact BitVec.isLt _
  · intro ⟨lossless, shares, total⟩
    exact partitions_of_lossless size (room.mpr lossless) shares total

end Partition

section Crowded

def anyOrder : RiskGate where
  limits :=
    { maxOrderShares := 100, maxOrderNotional := 100, maxCumulativeShares := 1000, maxCumulativeNotional := 1000 }

def single : ChildOrderQueue := ⟨[{ shares := 1 }], by decide⟩
-- Sealed, so that nothing unrolls the 512 orders.
@[irreducible] def crowded : ChildOrderQueue := ⟨List.replicate kMaxChildOrders {}, by rw [List.length_replicate]⟩
def blank : List RejectReason := List.replicate kMaxChildOrders .none

theorem blank_length : blank.length = kMaxChildOrders := by rw [blank, List.length_replicate]
theorem crowded_length : crowded.orders.length = kMaxChildOrders := by rw [crowded, List.length_replicate]

-- The second of these is too large.
def mixed : ChildOrderQueue :=
  ⟨[{ price := 10, shares := 1 }, { shares := 101 }, { type := .market, price := 20, shares := 2 }], by decide⟩

theorem apply_partitions_mixed :
    (∃ out, Partitions anyOrder mixed single (apply anyOrder mixed single (some blank)) out) ∧
      (apply anyOrder mixed single (some blank)).accepted.orders =
        [{ shares := 1 }, { price := 10, shares := 1 }, { type := .market, price := 20, shares := 2 }] :=
  ⟨(apply_partitions_iff anyOrder mixed single blank blank_length).mpr (by decide), by decide⟩

theorem crowded_loses_order :
    ¬∀ (gate : RiskGate) (input accepted : ChildOrderQueue) (reasons : List RejectReason),
      reasons.length = kMaxChildOrders →
        ∃ out, Partitions gate input accepted (apply gate input accepted (some reasons)) out := by
  intro always
  obtain ⟨out, partition⟩ := always anyOrder single crowded blank blank_length
  have room := (lossless_iff_room single.orders 0
    { gate := anyOrder, accepted := crowded, acceptedCount := 0, reasonsOut := some blank }).mp
    (partition.lossless blank_length).1
  have passes : (passing anyOrder single.orders).length = 1 := by decide
  rw [crowded_length, passes] at room
  exact absurd room (by decide)

end Crowded

end ItchLob.Exec
