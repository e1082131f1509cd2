import ItchLob.Exec.RiskGate
import ItchLob.Exec.Strategy

set_option autoImplicit false

namespace ItchLob.Exec

open Itch

structure PovParams where
  side : Side := Side.buy
  maxShares : Shares := 0
  participationBps : UInt32 := 0
  endTs : Timestamp := 0

structure Pov where
  params : PovParams
  sharesSent : Shares := 0
  queue : ChildOrderQueue := .empty

namespace Pov

def done (s : Pov) : Bool := s.sharesSent ≥ s.params.maxShares
def remaining (s : Pov) : Shares := s.params.maxShares - s.sharesSent

def thisSlice (s : Pov) (tick : TradeTick) : Shares :=
  let raw : UInt64 := tick.shares.toUInt64 * s.params.participationBps.toUInt64 / 10000
  if raw > s.remaining.toUInt64 then s.remaining else raw.toUInt32

-- The order a tick pushes; none where the source returns before the push.
def child (s : Pov) (tick : TradeTick) : Option ChildOrder :=
  if s.done then none
  else if s.params.endTs ≠ 0 ∧ tick.ts > s.params.endTs then none
  else if s.thisSlice tick = 0 then none
  else some { ts := tick.ts, side := s.params.side, type := .market, price := 0, shares := s.thisSlice tick }

-- The push's answer is dropped.
def onTradeTick (s : Pov) (tick : TradeTick) : Pov :=
  match s.child tick with
  | none => s
  | some order =>
    { s with queue := (s.queue.push order).2, sharesSent := s.sharesSent + order.shares }

def onBboChange (s : Pov) (_ : Bbo) : Pov := s

def strategy : Strategy Pov TradeTick where
  call := onTradeTick
  queue := queue
  withQueue s q := { s with queue := q }

theorem thisSlice_le (s : Pov) (tick : TradeTick) : (s.thisSlice tick).toNat ≤ s.remaining.toNat := by
  simp only [thisSlice]
  split
  · exact Nat.le_refl _
  next within =>
    have least := UInt64.le_iff_toNat_le.mp (UInt64.not_lt.mp within)
    rw [UInt32.toNat_toUInt64] at least
    rw [UInt64.toNat_toUInt32]
    exact Nat.le_trans (Nat.mod_le _ _) least

theorem child_some {s : Pov} {tick : TradeTick} {order : ChildOrder} (sends : s.child tick = some order) :
    order.shares = s.thisSlice tick ∧ order.shares ≠ 0 ∧ s.sharesSent < s.params.maxShares := by
  unfold child at sends
  split_ifs at sends with finished late nothing
  cases sends
  exact ⟨rfl, nothing, by simpa [done] using finished⟩

theorem sent_after {s : Pov} {tick : TradeTick} {order : ChildOrder} (sends : s.child tick = some order) :
    (s.sharesSent + order.shares).toNat = s.sharesSent.toNat + order.shares.toNat ∧
      s.sharesSent.toNat + order.shares.toNat ≤ s.params.maxShares.toNat := by
  obtain ⟨sized, -, unfinished⟩ := child_some sends
  have below := UInt32.lt_iff_toNat_lt.mp unfinished
  have left : s.remaining.toNat = s.params.maxShares.toNat - s.sharesSent.toNat :=
    UInt32.toNat_sub_of_le _ _ (UInt32.le_iff_toNat_le.mpr (Nat.le_of_lt below))
  have slice := s.thisSlice_le tick
  have top := s.params.maxShares.toNat_lt
  rw [← sized, left] at slice
  have within : s.sharesSent.toNat + order.shares.toNat ≤ s.params.maxShares.toNat := by omega
  refine ⟨?_, within⟩
  rw [UInt32.toNat_add]
  exact Nat.mod_eq_of_lt (by omega)

structure Budgeted (d : Desk Pov) : Prop where
  sent : d.strategy.sharesSent.toNat = sharesOf d.accepted
  within : d.strategy.sharesSent ≤ d.strategy.params.maxShares

def HasRoom (s : Pov) (tick : TradeTick) : Prop := s.child tick ≠ none → s.queue.full = false

variable {d : Desk Pov}

theorem step_silent {tick : TradeTick} (silent : d.strategy.child tick = none) :
    strategy.step d (.call tick) = d := by
  have still : d.strategy.onTradeTick tick = d.strategy := by rw [onTradeTick, silent]
  simp only [Strategy.step, strategy, still, gained_self, List.append_nil]

theorem step_sends {tick : TradeTick} {order : ChildOrder} (sends : d.strategy.child tick = some order) :
    (strategy.step d (.call tick)).strategy =
        { d.strategy with
          queue := (d.strategy.queue.push order).2, sharesSent := d.strategy.sharesSent + order.shares } ∧
      (strategy.step d (.call tick)).accepted =
        if d.strategy.queue.full then d.accepted else d.accepted ++ [order] := by
  have next : d.strategy.onTradeTick tick =
      { d.strategy with
        queue := (d.strategy.queue.push order).2, sharesSent := d.strategy.sharesSent + order.shares } := by
    rw [onTradeTick, sends]
  simp only [Strategy.step, strategy, next, true_and]
  cases crowded : d.strategy.queue.full with
  | true => simp [ChildOrderQueue.push_full crowded, gained_self]
  | false => simp [gained_append (ChildOrderQueue.push_accepts crowded order).2]

theorem Budgeted.call_iff (budgeted : Budgeted d) (tick : TradeTick) :
    Budgeted (strategy.step d (.call tick)) ↔ HasRoom d.strategy tick := by
  cases found : d.strategy.child tick with
  | none =>
    rw [step_silent found]
    simp [HasRoom, found, budgeted]
  | some order =>
    obtain ⟨next, accepted⟩ := step_sends found
    obtain ⟨exact, within⟩ := sent_after found
    have positive : 0 < order.shares.toNat :=
      Nat.pos_of_ne_zero fun zero => (child_some found).2.1 (UInt32.toNat_inj.mp zero)
    have before := budgeted.sent
    cases crowded : d.strategy.queue.full with
    | true =>
      -- The order is lost but counted.
      have unfit : ¬HasRoom d.strategy tick := by simp [HasRoom, found, crowded]
      refine ⟨fun after => ?_, fun room => absurd room unfit⟩
      have lost := after.sent
      rw [next, accepted, crowded, if_pos rfl, exact] at lost
      omega
    | false =>
      refine ⟨fun _ _ => crowded, fun _ => ⟨?_, ?_⟩⟩
      · rw [next, accepted, crowded, exact, before]
        simp [sharesOf]
      · rw [next, UInt32.le_iff_toNat_le, exact]
        exact within

theorem Budgeted.clear (budgeted : Budgeted d) : Budgeted (strategy.step d .clear) :=
  ⟨budgeted.sent, budgeted.within⟩

/-- The count of shares sent is right in every state of a run exactly when no
tick that sends meets a full queue. -/
theorem budgeted_iff_room (params : PovParams) (events : List (Event TradeTick)) :
    (∀ seen, seen <+: events → Budgeted (strategy.run { params } seen)) ↔
      strategy.Throughout HasRoom { params } events :=
  Strategy.throughout_iff Budgeted ⟨rfl, UInt32.le_iff_toNat_le.mpr (Nat.zero_le _)⟩
    (fun _ tick budgeted => budgeted.call_iff tick) (fun _ budgeted => budgeted.clear) events

section Undrained

-- One-share prints at full participation, and a caller that never clears.
def wholeTape : PovParams := { maxShares := 1000, participationBps := 10000 }
def print : TradeTick := { shares := 1 }
def undrained (n : Nat) : List (Event TradeTick) := List.replicate n (.call print)

theorem print_sends {s : Pov} (params : s.params = wholeTape) (sent : s.sharesSent.toNat ≤ 512) :
    ∃ order, s.child print = some order ∧ order.shares = 1 := by
  have below : ¬s.sharesSent ≥ wholeTape.maxShares := by
    rw [ge_iff_le, UInt32.le_iff_toNat_le]
    change ¬1000 ≤ _
    omega
  have left : s.remaining.toNat = 1000 - s.sharesSent.toNat := by
    rw [remaining, params]
    exact UInt32.toNat_sub_of_le _ _ (UInt32.le_of_lt (UInt32.not_le.mp below))
  have slice : s.thisSlice print = 1 := by
    have within : ¬(1 : UInt64) > s.remaining.toUInt64 := by
      rw [gt_iff_lt, UInt64.lt_iff_toNat_lt, UInt32.toNat_toUInt64, left]
      change ¬_ < 1
      omega
    have raw : print.shares.toUInt64 * wholeTape.participationBps.toUInt64 / 10000 = 1 := by decide
    simp only [thisSlice, params, raw, if_neg within]
    rfl
  have ready : ¬s.done := by simpa [done, params] using below
  have anytime : ¬(s.params.endTs ≠ 0 ∧ print.ts > s.params.endTs) := by simp [params, wholeTape]
  refine ⟨_, by rw [child, if_neg ready, if_neg anytime, if_neg (by rw [slice]; decide)], slice⟩

theorem undrained_fills (n : Nat) (small : n ≤ 512) :
    (strategy.run { params := wholeTape } (undrained n)).strategy.params = wholeTape ∧
      (strategy.run { params := wholeTape } (undrained n)).strategy.sharesSent.toNat = n ∧
      (strategy.run { params := wholeTape } (undrained n)).strategy.queue.orders.length = n := by
  induction n with
  | zero => exact ⟨rfl, rfl, rfl⟩
  | succ n ih =>
    obtain ⟨params, sent, length⟩ := ih (by omega)
    obtain ⟨order, sends, one⟩ := print_sends params (by omega)
    obtain ⟨next, -⟩ := step_sends sends
    have room : (strategy.run { params := wholeTape } (undrained n)).strategy.queue.full = false := by
      simp [ChildOrderQueue.full, length, kMaxChildOrders]
      omega
    have split : undrained (n + 1) = undrained n ++ [.call print] := List.replicate_succ'
    rw [split, Strategy.run_append, next]
    refine ⟨params, ?_, ?_⟩
    · rw [(sent_after sends).1, sent, one]
      rfl
    · rw [(ChildOrderQueue.push_accepts room order).2, List.length_append, length]
      rfl

theorem undrained_loses_order :
    ¬∀ params : PovParams, ∀ events : List (Event TradeTick), Budgeted (strategy.run { params } events) := by
  intro always
  obtain ⟨params, sent, length⟩ := undrained_fills 512 (Nat.le_refl _)
  obtain ⟨order, sends, -⟩ := print_sends params (by omega)
  have after := always wholeTape (undrained 512 ++ [.call print])
  rw [Strategy.run_append, (always wholeTape (undrained 512)).call_iff] at after
  have room := after (by simp [sends])
  simp [ChildOrderQueue.full, length, kMaxChildOrders] at room

end Undrained

end Pov

end ItchLob.Exec
