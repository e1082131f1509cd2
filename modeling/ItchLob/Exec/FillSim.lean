import ItchLob.Exec.Vwap

set_option autoImplicit false

namespace ItchLob.Exec

open Itch

structure Fill where
  ts : Timestamp := 0
  side : Side := Side.buy
  price : Price := 0
  shares : Shares := 0
  deriving DecidableEq, Repr

def kMaxFills : Nat := kMaxChildOrders

structure FillQueue where
  fills : List Fill
  capacity : fills.length ≤ kMaxFills

namespace FillQueue

def empty : FillQueue := ⟨[], Nat.zero_le _⟩

def push (q : FillQueue) (f : Fill) : Bool × FillQueue :=
  if room : q.fills.length < kMaxFills then
    (true, ⟨q.fills ++ [f], by rw [List.length_append, List.length_singleton]; exact room⟩)
  else (false, q)

end FillQueue

structure FillSimulator where
  bbo : Bbo := {}
  lastTradePrice : Price := 0
  fills : FillQueue := .empty
  sharesFilled : Shares := 0
  sharesAttempted : Shares := 0
  notional : UInt128 := 0

namespace FillSimulator

def onBboChange (s : FillSimulator) (bbo : Bbo) : FillSimulator := { s with bbo }
def onTradeTick (s : FillSimulator) (tick : TradeTick) : FillSimulator := { s with lastTradePrice := tick.price }

def fillPrice (s : FillSimulator) (order : ChildOrder) : Option Price :=
  if order.type = .market then
    if s.lastTradePrice ≠ 0 then some s.lastTradePrice else none
  else if order.side = Side.buy then
    if s.bbo.askPrice ≠ 0 ∧ order.price ≥ s.bbo.askPrice then some s.bbo.askPrice else none
  else
    if s.bbo.bidPrice ≠ 0 ∧ order.price ≤ s.bbo.bidPrice then some s.bbo.bidPrice else none

def fill (s : FillSimulator) (order : ChildOrder) : Bool × FillSimulator :=
  let s := { s with sharesAttempted := s.sharesAttempted + order.shares }
  match s.fillPrice order with
  | none => (false, s)
  | some price =>
    let (pushed, fills) := s.fills.push { ts := order.ts, side := order.side, price, shares := order.shares }
    if pushed then
      (true, { s with
        fills
        sharesFilled := s.sharesFilled + order.shares
        notional := s.notional + UInt32.widen price * UInt32.widen order.shares })
    else (false, s)

inductive Call where
  | bboChange (bbo : Bbo)
  | tradeTick (tick : TradeTick)
  | fill (order : ChildOrder)
  deriving DecidableEq, Repr

def step (s : FillSimulator) : Call → FillSimulator
  | .bboChange bbo => s.onBboChange bbo
  | .tradeTick tick => s.onTradeTick tick
  | .fill order => (s.fill order).2

def run (calls : List Call) : FillSimulator := calls.foldl step {}

def attempted : List Call → List ChildOrder
  | [] => []
  | .fill order :: rest => order :: attempted rest
  | _ :: rest => attempted rest

def filledShares (fills : List Fill) : Nat := (fills.map fun f => f.shares.toNat).sum
def filledNotional (fills : List Fill) : Nat := (fills.map fun f => f.price.toNat * f.shares.toNat).sum

structure Exact (s : FillSimulator) (calls : List Call) : Prop where
  tried : s.sharesAttempted.toNat = sharesOf (attempted calls)
  filled : s.sharesFilled.toNat = filledShares s.fills.fills
  notional : s.notional.toNat = filledNotional s.fills.fills
  ratio : s.sharesFilled ≤ s.sharesAttempted

structure Modular (s : FillSimulator) (calls : List Call) : Prop where
  tried : s.sharesAttempted.toNat = sharesOf (attempted calls) % 2 ^ 32
  filled : s.sharesFilled.toNat = filledShares s.fills.fills % 2 ^ 32
  notional : s.notional.toNat = filledNotional s.fills.fills
  within : filledShares s.fills.fills ≤ sharesOf (attempted calls)

theorem attempted_append (calls later : List Call) :
    attempted (calls ++ later) = attempted calls ++ attempted later := by
  induction calls with
  | nil => rfl
  | cons c rest ih => cases c <;> simp [attempted, ih]

theorem filledNotional_lt (q : FillQueue) : filledNotional q.fills < 2 ^ 128 := by
  have general (fills : List Fill) : filledNotional fills ≤ fills.length * 2 ^ 64 := by
    induction fills with
    | nil => exact Nat.le_refl 0
    | cons f rest ih =>
      have worth := RiskGate.product_lt f.price f.shares
      simp only [filledNotional, List.map_cons, List.sum_cons, List.length_cons] at ih ⊢
      omega
  have bound := general q.fills
  have capacity : q.fills.length ≤ 512 := q.capacity
  omega

theorem fill_cases (s : FillSimulator) (order : ChildOrder) :
    (s.fill order).2 = { s with sharesAttempted := s.sharesAttempted + order.shares } ∨
      ∃ price, s.fillPrice order = some price ∧
        (s.fill order).2.fills.fills =
          s.fills.fills ++ [{ ts := order.ts, side := order.side, price, shares := order.shares }] ∧
        (s.fill order).2.sharesAttempted = s.sharesAttempted + order.shares ∧
        (s.fill order).2.sharesFilled = s.sharesFilled + order.shares ∧
        (s.fill order).2.notional = s.notional + UInt32.widen price * UInt32.widen order.shares := by
  have blind : ({ s with sharesAttempted := s.sharesAttempted + order.shares } : FillSimulator).fillPrice order =
      s.fillPrice order := rfl
  simp only [fill, blind]
  cases found : s.fillPrice order with
  | none => exact .inl rfl
  | some price =>
    by_cases room : s.fills.fills.length < kMaxFills
    · exact .inr ⟨price, rfl, by simp [FillQueue.push, room]⟩
    · exact .inl (by simp [FillQueue.push, room])

theorem filledShares_append (fills : List Fill) (f : Fill) :
    filledShares (fills ++ [f]) = filledShares fills + f.shares.toNat := by simp [filledShares]

theorem filledNotional_append (fills : List Fill) (f : Fill) :
    filledNotional (fills ++ [f]) = filledNotional fills + f.price.toNat * f.shares.toNat := by simp [filledNotional]

section Runs

variable {s : FillSimulator} {calls : List Call}

theorem Modular.fill (modular : Modular s calls) (order : ChildOrder) :
    Modular (s.fill order).2 (calls ++ [.fill order]) := by
  obtain ⟨tried, filled, notional, within⟩ := modular
  have asked : sharesOf (attempted (calls ++ [.fill order])) =
      sharesOf (attempted calls) + order.shares.toNat := by
    simp [attempted_append, attempted, sharesOf]
  have counted : (s.sharesAttempted + order.shares).toNat =
      (sharesOf (attempted calls) + order.shares.toNat) % 2 ^ 32 := by
    rw [UInt32.toNat_add, tried, Nat.mod_add_mod]
  rcases s.fill_cases order with next | ⟨price, -, fills, asks, done, worth⟩
  · rw [next]
    refine ⟨asked ▸ counted, filled, notional, ?_⟩
    rw [asked]
    exact Nat.le_trans within (Nat.le_add_right _ _)
  · have total := filledNotional_lt (s.fill order).2.fills
    rw [fills, filledNotional_append] at total
    refine ⟨?_, ?_, ?_, ?_⟩
    · rw [asks, asked, counted]
    · rw [done, fills, filledShares_append, UInt32.toNat_add, filled, Nat.mod_add_mod]
    · rw [worth, fills, filledNotional_append, BitVec.toNat_add, notional, RiskGate.widen_product]
      exact Nat.mod_eq_of_lt total
    · rw [fills, filledShares_append, asked]
      exact Nat.add_le_add_right within _

theorem Modular.quiet (modular : Modular s calls) {s' : FillSimulator} {c : Call} (silent : attempted [c] = [])
    (tried : s'.sharesAttempted = s.sharesAttempted) (done : s'.sharesFilled = s.sharesFilled)
    (worth : s'.notional = s.notional) (fills : s'.fills = s.fills) : Modular s' (calls ++ [c]) := by
  have same : attempted (calls ++ [c]) = attempted calls := by rw [attempted_append, silent, List.append_nil]
  exact
    { tried := by rw [tried, same]; exact modular.tried
      filled := by rw [done, fills]; exact modular.filled
      notional := by rw [worth, fills]; exact modular.notional
      within := by rw [fills, same]; exact modular.within }

theorem run_modular (calls : List Call) : Modular (run calls) calls := by
  induction calls using List.reverseRecOn with
  | nil => exact ⟨rfl, rfl, rfl, Nat.le_refl 0⟩
  | append_singleton calls c ih =>
    have next : run (calls ++ [c]) = (run calls).step c := by
      rw [run, List.foldl_append]
      rfl
    rw [next]
    cases c with
    | bboChange bbo => exact ih.quiet rfl rfl rfl rfl rfl
    | tradeTick tick => exact ih.quiet rfl rfl rfl rfl rfl
    | fill order => exact ih.fill order

theorem Modular.exact_iff (modular : Modular s calls) : Exact s calls ↔ sharesOf (attempted calls) < 2 ^ 32 := by
  have within := modular.within
  constructor
  · intro exact
    rw [← exact.tried]
    exact UInt32.toNat_lt _
  · intro small
    have asked := modular.tried
    have done := modular.filled
    rw [Nat.mod_eq_of_lt small] at asked
    rw [Nat.mod_eq_of_lt (Nat.lt_of_le_of_lt within small)] at done
    exact ⟨asked, done, modular.notional, UInt32.le_iff_toNat_le.mpr (by omega)⟩

end Runs

end FillSimulator

/-- The 32-bit counts of attempted, filled and printed shares are exact on a run
exactly when the exact sums fit in 32 bits; the 128-bit notional never wraps. -/
theorem totals_exact_iff (calls : List FillSimulator.Call) (params : VwapParams) (curve : VolumeCurve)
    (events : List (Event TradeTick)) :
    (FillSimulator.Exact (FillSimulator.run calls) calls ↔ sharesOf (FillSimulator.attempted calls) < 2 ^ 32) ∧
    ((Vwap.strategy.run { params, curve } events).strategy.marketSharesSeen.toNat =
          Vwap.windowShares params events ↔
        Vwap.windowShares params events < 2 ^ 32) := by
  refine ⟨(FillSimulator.run_modular calls).exact_iff, ?_⟩
  rw [Vwap.run_market]
  exact ⟨fun same => same ▸ Nat.mod_lt _ (by decide), Nat.mod_eq_of_lt⟩

-- Two orders that no fill ever answers.
def overflowing : List FillSimulator.Call := [.fill { shares := 4294967295 }, .fill { shares := 1 }]

theorem attempted_wraps : ¬∀ calls, FillSimulator.Exact (FillSimulator.run calls) calls := by
  intro always
  exact absurd (always overflowing).tried (by decide)

end ItchLob.Exec
