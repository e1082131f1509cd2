import ItchLob.Exec.RiskGate
import ItchLob.Exec.Strategy
import ItchLob.Exec.VolumeCurve
import ItchLob.Shared.Interpolation
import ItchLob.Shared.RunningMax

set_option autoImplicit false

namespace ItchLob.Exec

open Itch Interpolation RunningMax

structure VwapParams where
  side : Side := Side.buy
  totalShares : Shares := 0
  startTs : Timestamp := 0
  endTs : Timestamp := 0
  childType : OrderType := .limit
  limitPrice : Price := 0

structure Vwap where
  params : VwapParams
  curve : VolumeCurve
  sharesSent : Shares := 0
  marketSharesSeen : Shares := 0
  queue : ChildOrderQueue := .empty

namespace Vwap

def construct (fp : Rounding) (params : VwapParams) : Except String Vwap :=
  if params.startTs ≥ params.endTs then .error "Vwap: start_ts must be < end_ts"
  else .ok { params, curve := .construct fp }

structure BucketPosition where
  index : Nat
  remainder : Timestamp

def bucketPosition (elapsed span : Timestamp) : BucketPosition :=
  if elapsed ≥ span then { index := kVolumeCurveBuckets - 1, remainder := span }
  else
    let scaled : UInt128 := UInt64.widen elapsed * BitVec.ofNat 128 kVolumeCurveBuckets
    let index := ((scaled / UInt64.widen span).setWidth 64).toNat
    { index := if index ≥ kVolumeCurveBuckets then kVolumeCurveBuckets - 1 else index
      remainder := UInt64.ofBitVec ((scaled % UInt64.widen span).setWidth 64) }

-- The locals of target_shares.
section Locals

variable (v : Vwap) (now : Timestamp)

def elapsed : Timestamp := now - v.params.startTs
def span : Timestamp := v.params.endTs - v.params.startTs
def pos : BucketPosition := bucketPosition (v.elapsed now) v.span

def cumBefore : UInt64 :=
  if (v.pos now).index = 0 then 0 else v.curve.cumulativeWeight ((v.pos now).index - 1)

def cumAfter : UInt64 := v.curve.cumulativeWeight (v.pos now).index
def bucketWeight : UInt64 := v.cumAfter now - v.cumBefore now

def withinBucket : UInt128 :=
  UInt64.widen (v.bucketWeight now) * UInt64.widen (v.pos now).remainder / UInt64.widen v.span

def curveFraction : UInt128 := UInt64.widen (v.cumBefore now) + v.withinBucket now

def targetShares : Shares :=
  let target : UInt128 := UInt32.widen v.params.totalShares * v.curveFraction now / UInt64.widen kCurveScale
  if target ≥ UInt32.widen v.params.totalShares then v.params.totalShares
  else UInt32.ofBitVec (target.setWidth 32)

end Locals

def done (v : Vwap) : Bool := v.sharesSent ≥ v.params.totalShares

def outside (params : VwapParams) (tick : TradeTick) : Bool := tick.ts < params.startTs || tick.ts > params.endTs

def toSend (v : Vwap) (tick : TradeTick) : Shares :=
  let remaining := v.params.totalShares - v.sharesSent
  let behind := v.targetShares tick.ts - v.sharesSent
  if behind < remaining then behind else remaining

-- The order a tick inside the window pushes; none where the source returns before the push.
def child (v : Vwap) (tick : TradeTick) : Option ChildOrder :=
  if v.done then none
  else if v.targetShares tick.ts ≤ v.sharesSent then none
  else if v.toSend tick = 0 then none
  else some
    { ts := tick.ts, side := v.params.side, type := v.params.childType, price := v.params.limitPrice
      shares := v.toSend tick }

def onTradeTick (v : Vwap) (tick : TradeTick) : Vwap :=
  if outside v.params tick then v
  else
    let v := { v with marketSharesSeen := v.marketSharesSeen + tick.shares }
    match v.child tick with
    | none => v
    | some order =>
      let (pushed, queue) := v.queue.push order
      if pushed then { v with queue, sharesSent := v.sharesSent + order.shares } else { v with queue }

def onBboChange (v : Vwap) (_ : Bbo) : Vwap := v

def strategy : Strategy Vwap TradeTick where
  call := onTradeTick
  queue := queue
  withQueue v q := { v with queue := q }

theorem widen_toNat (x : UInt64) : (UInt64.widen x).toNat = x.toNat := by
  have := x.toNat_lt
  rw [UInt64.widen, BitVec.toNat_setWidth, UInt64.toNat_toBitVec]
  omega

theorem widen_shares_toNat (x : UInt32) : (UInt32.widen x).toNat = x.toNat := by
  have := x.toNat_lt
  rw [UInt32.widen, BitVec.toNat_setWidth, UInt32.toNat_toBitVec]
  omega

theorem widen_mul_toNat (x y : UInt64) : (UInt64.widen x * UInt64.widen y).toNat = x.toNat * y.toNat := by
  have left := x.toNat_lt
  have right := y.toNat_lt
  have bound : x.toNat * y.toNat < 2 ^ 128 := by
    calc x.toNat * y.toNat < 2 ^ 64 * 2 ^ 64 := Nat.mul_lt_mul'' left right
      _ = 2 ^ 128 := by decide
  rw [BitVec.toNat_mul, widen_toNat, widen_toNat, Nat.mod_eq_of_lt bound]

theorem scaled_toNat (x : UInt64) :
    (UInt64.widen x * BitVec.ofNat 128 kVolumeCurveBuckets).toNat = x.toNat * kVolumeCurveBuckets :=
  widen_mul_toNat x 13

section Position

variable {elapsed span : Timestamp}

theorem bucketPosition_inside (early : elapsed < span) :
    (bucketPosition elapsed span).index = elapsed.toNat * kVolumeCurveBuckets / span.toNat ∧
      (bucketPosition elapsed span).remainder.toNat = elapsed.toNat * kVolumeCurveBuckets % span.toNat := by
  have below := UInt64.lt_iff_toNat_lt.mp early
  have bound := span.toNat_lt
  have index : elapsed.toNat * kVolumeCurveBuckets / span.toNat < kVolumeCurveBuckets := by
    rw [Nat.div_lt_iff_lt_mul (by omega), Nat.mul_comm]
    exact Nat.mul_lt_mul_of_pos_left below (by decide)
  have remainder := Nat.mod_lt (elapsed.toNat * kVolumeCurveBuckets) (show 0 < span.toNat by omega)
  have quotient : ((UInt64.widen elapsed * BitVec.ofNat 128 kVolumeCurveBuckets / UInt64.widen span).setWidth 64).toNat =
      elapsed.toNat * kVolumeCurveBuckets / span.toNat := by
    rw [BitVec.toNat_setWidth, BitVec.toNat_udiv, scaled_toNat, widen_toNat]
    exact Nat.mod_eq_of_lt (Nat.lt_trans index (by decide))
  have left : ((UInt64.widen elapsed * BitVec.ofNat 128 kVolumeCurveBuckets % UInt64.widen span).setWidth 64).toNat =
      elapsed.toNat * kVolumeCurveBuckets % span.toNat := by
    rw [BitVec.toNat_setWidth, BitVec.toNat_umod, scaled_toNat, widen_toNat]
    exact Nat.mod_eq_of_lt (Nat.lt_trans remainder bound)
  have unclamped : ¬elapsed.toNat * kVolumeCurveBuckets / span.toNat ≥ kVolumeCurveBuckets := Nat.not_le.mpr index
  simp only [bucketPosition, if_neg (UInt64.not_le.mpr early), quotient, if_neg unclamped, true_and]
  exact left

theorem bucketPosition_end (past : span ≤ elapsed) :
    bucketPosition elapsed span = { index := kVolumeCurveBuckets - 1, remainder := span } := if_pos past

variable (positive : 0 < span.toNat)
include positive

theorem bucketPosition_index : (bucketPosition elapsed span).index < kVolumeCurveBuckets := by
  rcases UInt64.lt_or_le elapsed span with early | past
  · rw [(bucketPosition_inside early).1, Nat.div_lt_iff_lt_mul positive, Nat.mul_comm]
    exact Nat.mul_lt_mul_of_pos_left (UInt64.lt_iff_toNat_lt.mp early) (by decide)
  · rw [bucketPosition_end past]
    exact Nat.lt_succ_self 12

theorem bucketPosition_interpolates (c : VolumeCurve) (within : elapsed ≤ span) :
    c.knot (bucketPosition elapsed span).index +
        (c.knot ((bucketPosition elapsed span).index + 1) - c.knot (bucketPosition elapsed span).index) *
          (bucketPosition elapsed span).remainder.toNat / span.toNat =
      interpolate c.knot span.toNat (elapsed.toNat * kVolumeCurveBuckets) := by
  rcases UInt64.lt_or_le elapsed span with early | past
  · obtain ⟨index, remainder⟩ := bucketPosition_inside early
    rw [index, remainder, interpolate]
  · obtain rfl := UInt64.le_antisymm within past
    have climbs : c.knot 12 ≤ c.knot 13 := c.knot_monotone (by decide)
    rw [bucketPosition_end past, Nat.mul_comm elapsed.toNat, interpolate_knot positive]
    change c.knot 12 + (c.knot 13 - c.knot 12) * elapsed.toNat / elapsed.toNat = c.knot 13
    rw [Nat.mul_div_cancel _ positive]
    omega

end Position

section Target

variable (v : Vwap)

-- The curve's share of the volume printed by `now`, in kCurveScale-ths.
def fraction (now : Timestamp) : Nat :=
  interpolate v.curve.knot v.span.toNat ((v.elapsed now).toNat * kVolumeCurveBuckets)

theorem cumBefore_toNat (now : Timestamp) : (v.cumBefore now).toNat = v.curve.knot (v.pos now).index := by
  rw [cumBefore, VolumeCurve.knot]
  split <;> rfl

theorem cumAfter_toNat (now : Timestamp) : (v.cumAfter now).toNat = v.curve.knot ((v.pos now).index + 1) := rfl

theorem bucketWeight_toNat (now : Timestamp) :
    (v.bucketWeight now).toNat =
      v.curve.knot ((v.pos now).index + 1) - v.curve.knot (v.pos now).index := by
  have climbs := v.curve.knot_climbs (v.pos now).index
  rw [← cumAfter_toNat, ← cumBefore_toNat] at climbs ⊢
  exact UInt64.toNat_sub_of_le _ _ (UInt64.le_iff_toNat_le.mpr climbs)

theorem withinBucket_toNat (now : Timestamp) :
    (v.withinBucket now).toNat =
      (v.curve.knot ((v.pos now).index + 1) - v.curve.knot (v.pos now).index) * (v.pos now).remainder.toNat /
        v.span.toNat := by
  rw [withinBucket, BitVec.toNat_udiv, widen_mul_toNat, widen_toNat, bucketWeight_toNat]

variable {v} (ordered : v.params.startTs < v.params.endTs)
include ordered

theorem span_toNat : v.span.toNat = v.params.endTs.toNat - v.params.startTs.toNat :=
  UInt64.toNat_sub_of_le _ _ (UInt64.le_of_lt ordered)

theorem span_positive : 0 < v.span.toNat := by
  have := UInt64.lt_iff_toNat_lt.mp ordered
  rw [span_toNat ordered]
  omega

theorem fraction_le (now : Timestamp) : v.fraction now ≤ 1000000 :=
  Nat.le_trans (interpolate_le_knot v.curve.knot_monotone (span_positive ordered) _) (v.curve.knot_le _)

omit ordered in
theorem elapsed_toNat {now : Timestamp} (started : v.params.startTs ≤ now) :
    (v.elapsed now).toNat = now.toNat - v.params.startTs.toNat :=
  UInt64.toNat_sub_of_le _ _ started

theorem fraction_start : v.fraction v.params.startTs = 0 := by
  have zero : (v.elapsed v.params.startTs).toNat = 0 := by
    rw [elapsed_toNat (UInt64.le_refl _), Nat.sub_self]
  have knot := interpolate_knot (c := v.curve.knot) (span_positive ordered) 0
  rw [Nat.zero_mul] at knot
  rw [fraction, zero, Nat.zero_mul, knot]
  rfl

variable {now : Timestamp} (started : v.params.startTs ≤ now) (unended : now ≤ v.params.endTs)
include started unended

theorem elapsed_le : v.elapsed now ≤ v.span := by
  have := UInt64.le_iff_toNat_le.mp unended
  rw [UInt64.le_iff_toNat_le, elapsed_toNat started, span_toNat ordered]
  omega

theorem curveFraction_toNat : (v.curveFraction now).toNat = v.fraction now := by
  have exact := bucketPosition_interpolates (span_positive ordered) v.curve (elapsed_le ordered started unended)
  have small := fraction_le ordered now
  rw [curveFraction, BitVec.toNat_add, widen_toNat, cumBefore_toNat, withinBucket_toNat]
  change (v.curve.knot (bucketPosition (v.elapsed now) v.span).index + _) % _ = _
  rw [pos, exact]
  exact Nat.mod_eq_of_lt (by change v.fraction now < _; omega)

theorem product_toNat :
    (UInt32.widen v.params.totalShares * v.curveFraction now).toNat =
      v.params.totalShares.toNat * v.fraction now := by
  have bound : v.params.totalShares.toNat * v.fraction now < 2 ^ 128 := by
    calc v.params.totalShares.toNat * v.fraction now ≤ 2 ^ 32 * 1000000 :=
          Nat.mul_le_mul (Nat.le_of_lt v.params.totalShares.toNat_lt) (fraction_le ordered now)
      _ < 2 ^ 128 := by decide
  rw [BitVec.toNat_mul, widen_shares_toNat, curveFraction_toNat ordered started unended, Nat.mod_eq_of_lt bound]

theorem targetShares_toNat :
    (v.targetShares now).toNat = v.params.totalShares.toNat * v.fraction now / 1000000 := by
  have size := v.params.totalShares.toNat_lt
  have most : v.params.totalShares.toNat * v.fraction now / 1000000 ≤ v.params.totalShares.toNat :=
    Nat.div_le_of_le_mul (by rw [Nat.mul_comm 1000000]; exact Nat.mul_le_mul_left _ (fraction_le ordered now))
  have target : (UInt32.widen v.params.totalShares * v.curveFraction now / UInt64.widen kCurveScale).toNat =
      v.params.totalShares.toNat * v.fraction now / 1000000 := by
    rw [BitVec.toNat_udiv, product_toNat ordered started unended, widen_toNat]
    rfl
  simp only [targetShares, ge_iff_le, BitVec.le_def, target, widen_shares_toNat]
  split
  next reached => exact Nat.le_antisymm reached most
  next below =>
    rw [UInt32.toNat_ofBitVec, BitVec.toNat_setWidth, target]
    exact Nat.mod_eq_of_lt (by omega)

/-- No product, sum or difference behind target_shares wraps, and the bucket lies in the table. -/
structure Unwrapped (v : Vwap) (now : Timestamp) : Prop where
  index : (v.pos now).index < kVolumeCurveBuckets
  scaled : (UInt64.widen (v.elapsed now) * BitVec.ofNat 128 kVolumeCurveBuckets).toNat =
    (v.elapsed now).toNat * kVolumeCurveBuckets
  weight : (v.cumBefore now).toNat + (v.bucketWeight now).toNat = (v.cumAfter now).toNat
  weighted : (UInt64.widen (v.bucketWeight now) * UInt64.widen (v.pos now).remainder).toNat =
    (v.bucketWeight now).toNat * (v.pos now).remainder.toNat
  sum : (v.curveFraction now).toNat = (v.cumBefore now).toNat + (v.withinBucket now).toNat
  product : (UInt32.widen v.params.totalShares * v.curveFraction now).toNat =
    v.params.totalShares.toNat * (v.curveFraction now).toNat

theorem unwrapped : Unwrapped v now where
  index := bucketPosition_index (span_positive ordered)
  scaled := scaled_toNat _
  weight := by
    have climbs := v.curve.knot_climbs (v.pos now).index
    rw [cumBefore_toNat, bucketWeight_toNat, cumAfter_toNat]
    omega
  weighted := widen_mul_toNat _ _
  sum := by
    rw [curveFraction_toNat ordered started unended, cumBefore_toNat, withinBucket_toNat]
    exact (bucketPosition_interpolates (span_positive ordered) v.curve
      (elapsed_le ordered started unended)).symm
  product := by rw [product_toNat ordered started unended, curveFraction_toNat ordered started unended]

end Target

section Window

variable {v : Vwap} (ordered : v.params.startTs < v.params.endTs)
include ordered

theorem targetShares_start : v.targetShares v.params.startTs = 0 := by
  apply UInt32.toNat_inj.mp
  rw [targetShares_toNat ordered (UInt64.le_refl _) (UInt64.le_of_lt ordered), fraction_start ordered,
    Nat.mul_zero]
  rfl

theorem targetShares_end : v.targetShares v.params.endTs = v.params.totalShares := by
  have whole : v.fraction v.params.endTs = 1000000 := by
    have elapsed : (v.elapsed v.params.endTs).toNat = v.span.toNat := rfl
    rw [fraction, elapsed, Nat.mul_comm, interpolate_knot (span_positive ordered)]
    exact v.curve.knot_last (Nat.le_refl _)
  apply UInt32.toNat_inj.mp
  rw [targetShares_toNat ordered (UInt64.le_of_lt ordered) (UInt64.le_refl _), whole]
  exact Nat.mul_div_cancel _ (by decide)

theorem targetShares_mono {earlier later : Timestamp} (started : v.params.startTs ≤ earlier)
    (le : earlier ≤ later) (unended : later ≤ v.params.endTs) :
    (v.targetShares earlier).toNat ≤ (v.targetShares later).toNat := by
  have further := UInt64.le_iff_toNat_le.mp le
  rw [targetShares_toNat ordered started (UInt64.le_trans le unended),
    targetShares_toNat ordered (UInt64.le_trans started le) unended]
  refine Nat.div_le_div_right (Nat.mul_le_mul_left _ ?_)
  apply interpolate_monotone v.curve.knot_monotone (span_positive ordered)
  apply Nat.mul_le_mul_right
  rw [elapsed_toNat started, elapsed_toNat (UInt64.le_trans started le)]
  omega

end Window

section Tick

variable {v : Vwap} {tick : TradeTick}

theorem targetShares_le (v : Vwap) (now : Timestamp) : v.targetShares now ≤ v.params.totalShares := by
  simp only [targetShares, ge_iff_le, BitVec.le_def, UInt32.le_iff_toNat_le]
  split
  · exact Nat.le_refl _
  next below =>
    rw [widen_shares_toNat] at below
    rw [UInt32.toNat_ofBitVec, BitVec.toNat_setWidth]
    exact Nat.le_trans (Nat.mod_le _ _) (by omega)

theorem child_some {order : ChildOrder} (sends : v.child tick = some order) :
    v.sharesSent < v.targetShares tick.ts ∧ order.shares = v.targetShares tick.ts - v.sharesSent := by
  unfold child at sends
  split_ifs at sends with finished reached nothing
  cases sends
  have behind := UInt32.not_le.mp reached
  have unfinished : v.sharesSent < v.params.totalShares := by simpa [done] using finished
  have most := UInt32.le_iff_toNat_le.mp (v.targetShares_le tick.ts)
  refine ⟨behind, ?_⟩
  simp only [toSend]
  split
  · rfl
  next capped =>
    have least := UInt32.le_iff_toNat_le.mp (UInt32.not_lt.mp capped)
    rw [UInt32.toNat_sub_of_le _ _ (UInt32.le_of_lt unfinished),
      UInt32.toNat_sub_of_le _ _ (UInt32.le_of_lt behind)] at least
    have whole : v.targetShares tick.ts = v.params.totalShares := by
      apply UInt32.toNat_inj.mp
      have := UInt32.lt_iff_toNat_lt.mp unfinished
      omega
    rw [whole]

theorem child_none (silent : v.child tick = none) : v.targetShares tick.ts ≤ v.sharesSent := by
  unfold child at silent
  split_ifs at silent with finished reached nothing
  · exact UInt32.le_trans (v.targetShares_le tick.ts) (by simpa [done] using finished)
  · exact reached
  · have behind := UInt32.lt_iff_toNat_lt.mp (UInt32.not_le.mp reached)
    have under : v.sharesSent < v.params.totalShares := by simpa [done] using finished
    have unfinished := UInt32.lt_iff_toNat_lt.mp under
    have zero := congrArg UInt32.toNat nothing
    simp only [toSend] at zero
    split at zero
    · rw [UInt32.toNat_sub_of_le _ _ (UInt32.le_iff_toNat_le.mpr (Nat.le_of_lt behind))] at zero
      change _ = 0 at zero
      omega
    · rw [UInt32.toNat_sub_of_le _ _ (UInt32.le_iff_toNat_le.mpr (Nat.le_of_lt unfinished))] at zero
      change _ = 0 at zero
      omega

theorem onTradeTick_cases (v : Vwap) (tick : TradeTick) :
    (outside v.params tick = true ∧ v.onTradeTick tick = v) ∨
    (outside v.params tick = false ∧ (v.targetShares tick.ts ≤ v.sharesSent ∨ v.queue.full = true) ∧
      v.onTradeTick tick = { v with marketSharesSeen := v.marketSharesSeen + tick.shares }) ∨
    (outside v.params tick = false ∧ v.sharesSent < v.targetShares tick.ts ∧
      ∃ order, order.shares = v.targetShares tick.ts - v.sharesSent ∧ v.child tick = some order ∧
        (v.onTradeTick tick).queue.orders = v.queue.orders ++ [order] ∧
        v.onTradeTick tick =
          { v with
            marketSharesSeen := v.marketSharesSeen + tick.shares
            sharesSent := v.targetShares tick.ts
            queue := (v.queue.push order).2 }) := by
  have blind (m : Shares) : ({ v with marketSharesSeen := m } : Vwap).child tick = v.child tick := rfl
  cases window : outside v.params tick with
  | true => exact .inl ⟨rfl, by rw [onTradeTick, if_pos window]⟩
  | false =>
    refine .inr ?_
    simp only [onTradeTick, window, Bool.false_eq_true, if_false, blind]
    cases found : v.child tick with
    | none => exact .inl ⟨trivial, .inl (child_none found), rfl⟩
    | some order =>
      obtain ⟨behind, missing⟩ := child_some found
      cases crowded : v.queue.full with
      | true => exact .inl ⟨trivial, .inr rfl, by simp [ChildOrderQueue.push_full crowded]⟩
      | false =>
        obtain ⟨pushed, grown⟩ := ChildOrderQueue.push_accepts crowded order
        have caughtUp : v.sharesSent + order.shares = v.targetShares tick.ts := by
          rw [missing, UInt32.add_comm, UInt32.sub_add_cancel]
        refine .inr ⟨trivial, behind, order, missing, rfl, ?_⟩
        simp [pushed, grown, caughtUp]

end Tick

def windowTimes (params : VwapParams) (events : List (Event TradeTick)) : List Timestamp :=
  ((Strategy.calls events).filter fun tick => !outside params tick).map TradeTick.ts

def Latest (params : VwapParams) (events : List (Event TradeTick)) (t : Timestamp) : Prop :=
  t ∈ windowTimes params events ∧ ∀ u ∈ windowTimes params events, u ≤ t

def Unrefused (v : Vwap) (tick : TradeTick) : Prop :=
  outside v.params tick = false → v.child tick ≠ none → v.queue.full = false

section Runs

variable {params : VwapParams} {curve : VolumeCurve} {d : Desk Vwap} {events : List (Event TradeTick)}

theorem windowTimes_call (tick : TradeTick) :
    windowTimes params (events ++ [.call tick]) =
      if outside params tick then windowTimes params events else windowTimes params events ++ [tick.ts] := by
  cases window : outside params tick <;> simp [windowTimes, Strategy.calls_append, Strategy.calls, window]

theorem windowTimes_clear : windowTimes params (events ++ [.clear]) = windowTimes params events := by
  simp [windowTimes, Strategy.calls_append, Strategy.calls]

theorem windowTimes_inside {t : Timestamp} (seen : t ∈ windowTimes params events) :
    params.startTs ≤ t ∧ t ≤ params.endTs := by
  simp only [windowTimes, List.mem_map, List.mem_filter, outside, Bool.not_eq_true', Bool.or_eq_false_iff,
    decide_eq_false_iff_not, UInt64.not_lt] at seen
  obtain ⟨tick, ⟨-, started, unended⟩, rfl⟩ := seen
  exact ⟨started, unended⟩

structure Sound (params : VwapParams) (curve : VolumeCurve) (d : Desk Vwap) : Prop where
  fixed : d.strategy.params = params
  table : d.strategy.curve = curve
  sent : d.strategy.sharesSent.toNat = sharesOf d.accepted
  within : d.strategy.sharesSent ≤ params.totalShares

theorem Sound.call (sound : Sound params curve d) (tick : TradeTick) :
    Sound params curve (strategy.step d (.call tick)) := by
  obtain ⟨fixed, table, sent, within⟩ := sound
  rcases d.strategy.onTradeTick_cases tick with ⟨-, next⟩ | ⟨-, -, next⟩ | ⟨-, behind, order, missing, -, grown, next⟩
  · simp only [Strategy.step, strategy, next, gained_self, List.append_nil]
    exact ⟨fixed, table, sent, within⟩
  · simp only [Strategy.step, strategy, next, gained_self, List.append_nil]
    exact ⟨fixed, table, sent, within⟩
  · have accepted : gained d.strategy.queue (d.strategy.onTradeTick tick).queue = [order] := gained_append grown
    have further := UInt32.lt_iff_toNat_lt.mp behind
    simp only [Strategy.step, strategy, accepted]
    rw [next]
    refine ⟨fixed, table, ?_, fixed ▸ d.strategy.targetShares_le tick.ts⟩
    rw [sharesOf_append, ← sent]
    simp only [sharesOf, List.map_cons, List.map_nil, List.sum_cons, List.sum_nil, missing]
    rw [UInt32.toNat_sub_of_le _ _ (UInt32.le_of_lt behind)]
    omega

theorem run_sound (params : VwapParams) (curve : VolumeCurve) (events : List (Event TradeTick)) :
    Sound params curve (strategy.run { params, curve } events) :=
  Strategy.invariant (fun d _ => Sound params curve d) ⟨rfl, rfl, rfl, UInt32.le_iff_toNat_le.mpr (Nat.zero_le _)⟩
    (fun _ _ tick sound => sound.call tick) (fun _ _ sound => ⟨sound.fixed, sound.table, sound.sent, sound.within⟩)
    events

theorem sent_grows (v : Vwap) (tick : TradeTick) : v.sharesSent.toNat ≤ (v.onTradeTick tick).sharesSent.toNat := by
  rcases v.onTradeTick_cases tick with ⟨-, next⟩ | ⟨-, -, next⟩ | ⟨-, behind, order, -, -, -, next⟩
  · rw [next]
  · rw [next]
  · rw [next]
    exact Nat.le_of_lt (UInt32.lt_iff_toNat_lt.mp behind)

def plan (params : VwapParams) (curve : VolumeCurve) : Timestamp → Shares :=
  targetShares { params, curve }

theorem targetShares_plan {v : Vwap} (fixed : v.params = params) (table : v.curve = curve) (t : Timestamp) :
    v.targetShares t = plan params curve t := by
  subst fixed table
  rfl

structure CaughtUp (params : VwapParams) (curve : VolumeCurve) (d : Desk Vwap) (events : List (Event TradeTick)) :
    Prop where
  sound : Sound params curve d
  highest : Highest (fun t => (plan params curve t).toNat) (windowTimes params events) d.strategy.sharesSent.toNat

theorem CaughtUp.call (caught : CaughtUp params curve d events) (tick : TradeTick)
    (unrefused : Unrefused d.strategy tick) :
    CaughtUp params curve (strategy.step d (.call tick)) (events ++ [.call tick]) := by
  obtain ⟨sound, highest⟩ := caught
  have target := targetShares_plan sound.fixed sound.table tick.ts
  refine ⟨sound.call tick, ?_⟩
  rw [windowTimes_call]
  change Highest _ _ (d.strategy.onTradeTick tick).sharesSent.toNat
  rcases d.strategy.onTradeTick_cases tick with
    ⟨window, next⟩ | ⟨window, idle, next⟩ | ⟨window, behind, order, -, -, -, next⟩
  · rw [sound.fixed] at window
    rw [if_pos window, next]
    exact highest
  · have enough : plan params curve tick.ts ≤ d.strategy.sharesSent := by
      rcases idle with enough | crowded
      · exact target ▸ enough
      · cases found : d.strategy.child tick with
        | none => exact target ▸ child_none found
        | some order =>
          have room := unrefused window (by simp [found])
          rw [crowded] at room
          cases room
    rw [sound.fixed] at window
    rw [if_neg (by simp [window]), next]
    exact highest.keep (UInt32.le_iff_toNat_le.mp enough)
  · rw [sound.fixed] at window
    rw [target] at behind
    rw [if_neg (by simp [window]), next, target]
    exact highest.raise (Nat.le_of_lt (UInt32.lt_iff_toNat_lt.mp behind))

theorem CaughtUp.clear (caught : CaughtUp params curve d events) :
    CaughtUp params curve (strategy.step d .clear) (events ++ [.clear]) := by
  obtain ⟨sound, highest⟩ := caught
  refine ⟨⟨sound.fixed, sound.table, sound.sent, sound.within⟩, ?_⟩
  rw [windowTimes_clear]
  exact highest

theorem run_caughtUp (unrefused : strategy.Throughout Unrefused { params, curve } events) :
    CaughtUp params curve (strategy.run { params, curve } events) events := by
  have fresh : CaughtUp params curve { strategy := { params, curve } } [] :=
    ⟨run_sound params curve [], highest_nil⟩
  exact Strategy.invariant_throughout (CaughtUp params curve) fresh
    (fun _ _ tick caught unrefused => caught.call tick unrefused) (fun _ _ caught => caught.clear) events unrefused

theorem CaughtUp.latest (ordered : params.startTs < params.endTs) (caught : CaughtUp params curve d events)
    {t : Timestamp} (latest : Latest params events t) : d.strategy.sharesSent = plan params curve t := by
  obtain ⟨seen, last⟩ := latest
  refine UInt32.toNat_inj.mp (caught.highest.last seen fun u earlier => ?_)
  exact targetShares_mono (v := { params, curve }) ordered (windowTimes_inside earlier).1 (last u earlier)
    (windowTimes_inside seen).2

/-- The schedule is the curve: every run accounts for what it queued and never
overshoots or falls back, where no push is refused the latest tick in the window
decides what has been sent, and that is the table, interpolated between its entries. -/
theorem follows_curve (params : VwapParams) (curve : VolumeCurve) (ordered : params.startTs < params.endTs)
    (events : List (Event TradeTick)) :
    (∀ fp, construct fp params = .ok { params, curve := .construct fp }) ∧
    (∀ seen, seen <+: events →
      (strategy.run { params, curve } seen).strategy.sharesSent.toNat =
          sharesOf (strategy.run { params, curve } seen).accepted ∧
        (strategy.run { params, curve } seen).strategy.sharesSent ≤ params.totalShares ∧
        (strategy.run { params, curve } seen).strategy.sharesSent ≤
          (strategy.run { params, curve } events).strategy.sharesSent ∧
        ∀ now, params.startTs ≤ now → now ≤ params.endTs →
          Unwrapped (strategy.run { params, curve } seen).strategy now) ∧
    (strategy.Throughout Unrefused { params, curve } events → ∀ seen, seen <+: events →
      (windowTimes params seen = [] → (strategy.run { params, curve } seen).strategy.sharesSent = 0) ∧
      (∀ t, Latest params seen t →
        (strategy.run { params, curve } seen).strategy.sharesSent = targetShares { params, curve } t) ∧
      (params.endTs ∈ windowTimes params seen →
        (strategy.run { params, curve } seen).strategy.sharesSent = params.totalShares)) ∧
    (∀ now, params.startTs ≤ now → now ≤ params.endTs →
      (targetShares { params, curve } now).toNat =
        params.totalShares.toNat *
          interpolate curve.knot (params.endTs.toNat - params.startTs.toNat)
            ((now.toNat - params.startTs.toNat) * kVolumeCurveBuckets) / 1000000) ∧
    targetShares { params, curve } params.startTs = 0 ∧
    targetShares { params, curve } params.endTs = params.totalShares := by
  refine ⟨fun fp => if_neg (UInt64.not_le.mpr ordered), ?_, ?_, ?_,
    targetShares_start (v := { params, curve }) ordered, targetShares_end (v := { params, curve }) ordered⟩
  · intro seen earlier
    have sound := run_sound params curve seen
    refine ⟨sound.sent, sound.within, UInt32.le_iff_toNat_le.mpr ?_, ?_⟩
    · exact Strategy.run_grows (fun v : Vwap => v.sharesSent.toNat) sent_grows (fun _ _ => rfl) earlier
    · intro now started unended
      rw [← sound.fixed] at ordered started unended
      exact unwrapped ordered started unended
  · intro unrefused seen ⟨later, split⟩
    subst split
    have caught := run_caughtUp unrefused.earlier
    refine ⟨fun none => UInt32.toNat_inj.mp (none ▸ caught.highest).none,
      fun t latest => caught.latest ordered latest, ?_⟩
    intro ended
    have last : Latest params seen params.endTs := ⟨ended, fun u inside => (windowTimes_inside inside).2⟩
    rw [caught.latest ordered last]
    exact targetShares_end (v := { params, curve }) ordered
  · intro now started unended
    have along := targetShares_toNat (v := { params, curve }) ordered started unended
    rw [fraction, span_toNat ordered, elapsed_toNat started] at along
    exact along

def windowShares (params : VwapParams) (events : List (Event TradeTick)) : Nat :=
  (((Strategy.calls events).filter fun tick => !outside params tick).map fun tick => tick.shares.toNat).sum

theorem market_call (v : Vwap) (tick : TradeTick) :
    (v.onTradeTick tick).marketSharesSeen =
      if outside v.params tick then v.marketSharesSeen else v.marketSharesSeen + tick.shares := by
  rcases v.onTradeTick_cases tick with ⟨window, next⟩ | ⟨window, -, next⟩ | ⟨window, -, order, -, -, -, next⟩ <;>
    rw [next, window] <;> rfl

theorem run_market (params : VwapParams) (curve : VolumeCurve) (events : List (Event TradeTick)) :
    (strategy.run { params, curve } events).strategy.marketSharesSeen.toNat = windowShares params events % 2 ^ 32 := by
  refine (Strategy.invariant (fun d events => Sound params curve d ∧
    d.strategy.marketSharesSeen.toNat = windowShares params events % 2 ^ 32)
    ⟨run_sound params curve [], rfl⟩ ?_ ?_ events).2
  · intro events d tick ⟨sound, counted⟩
    refine ⟨sound.call tick, ?_⟩
    change (d.strategy.onTradeTick tick).marketSharesSeen.toNat = _
    rw [market_call, sound.fixed]
    cases window : outside params tick with
    | true => simp [windowShares, Strategy.calls_append, Strategy.calls, window, counted]
    | false =>
      simp only [Bool.false_eq_true, if_false, UInt32.toNat_add, counted, Nat.mod_add_mod]
      simp [windowShares, Strategy.calls_append, Strategy.calls, window]
  · intro events d ⟨sound, counted⟩
    refine ⟨⟨sound.fixed, sound.table, sound.sent, sound.within⟩, ?_⟩
    change d.strategy.marketSharesSeen.toNat = _
    simpa [windowShares, Strategy.calls_append, Strategy.calls] using counted

-- Nine tenths of the volume in the first bucket.
def frontLoaded : VolumeCurve where
  cumulative := List.replicate 12 900000 ++ [1000000]
  size := by decide
  nondecreasing := by decide
  ends := by decide

-- Prints half way through the first bucket, at its end and at the close.
theorem follows_curve_close :
    let params : VwapParams := { totalShares := 1000, endTs := 1300 }
    let sent (seen : List Timestamp) := (strategy.run { params, curve := frontLoaded }
      (seen.map fun ts => .call { ts, shares := 7 })).strategy.sharesSent
    sent [50] = 450 ∧ sent [50, 100] = 900 ∧ sent [50, 100, 1300] = 1000 := by
  intro params sent
  have unrefused : strategy.Throughout Unrefused { params, curve := frontLoaded }
      ((([] ++ [.call { ts := 50, shares := 7 }]) ++ [.call { ts := 100, shares := 7 }]) ++
        [.call { ts := 1300, shares := 7 }]) :=
    ((Strategy.throughout_nil.snoc fun _ _ _ _ => by decide).snoc fun _ _ _ _ => by decide).snoc
      fun _ _ _ _ => by decide
  obtain ⟨-, -, caught, target, -, -⟩ := follows_curve params frontLoaded (by decide) _
  have behind := caught unrefused
  have first : windowTimes params [.call { ts := 50, shares := 7 }] = [50] := rfl
  have both : windowTimes params [.call { ts := 50, shares := 7 }, .call { ts := 100, shares := 7 }] = [50, 100] := rfl
  have half : Latest params [.call { ts := 50, shares := 7 }] 50 := by simp [Latest, first]
  have whole : Latest params [.call { ts := 50, shares := 7 }, .call { ts := 100, shares := 7 }] 100 := by
    simp [Latest, both]
  refine ⟨?_, ?_, ?_⟩
  · rw [show sent [50] = _ from (behind _ (by simp)).2.1 50 half]
    exact UInt32.toNat_inj.mp ((target 50 (by decide) (by decide)).trans (by decide))
  · rw [show sent [50, 100] = _ from (behind _ (by simp)).2.1 100 whole]
    exact UInt32.toNat_inj.mp ((target 100 (by decide) (by decide)).trans (by decide))
  · exact (behind _ (List.prefix_refl _)).2.2 (by decide)

end Runs

end Vwap

end ItchLob.Exec
