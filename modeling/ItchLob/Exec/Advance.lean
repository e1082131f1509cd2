import ItchLob.Exec.AlmgrenChriss
import ItchLob.Exec.Strategy
import ItchLob.Shared.RunningMax

set_option autoImplicit false

namespace ItchLob.Exec

open RunningMax

namespace TwapParams

-- The instant bin i falls due, in wrapping 64-bit arithmetic.
def boundary (p : TwapParams) (i : Nat) : Timestamp := p.startTs + UInt64.ofNat (i + 1) * p.binNs

def child (p : TwapParams) (now : Timestamp) (shares : Shares) : ChildOrder :=
  { ts := now, side := p.side, type := p.childType
    price := if p.childType = .limit then p.limitPrice else 0
    shares }

end TwapParams

-- What advance moves; `pushed` is its local counter.
structure Cursor where
  nextBin : Nat
  queue : ChildOrderQueue
  pushed : Nat := 0

/-- The loop of both advance functions, by the number of bins left. -/
def advanceLoop (p : TwapParams) (schedule : List Shares) (now : Timestamp) : Nat → Cursor → Cursor
  | 0, c => c
  | left + 1, c =>
    if p.boundary c.nextBin > now then c
    else if c.queue.full then c
    else advanceLoop p schedule now left
      { nextBin := c.nextBin + 1
        queue := (c.queue.push (p.child now (schedule.getD c.nextBin 0))).2
        pushed := c.pushed + 1 }

def Twap.advance (t : Twap) (now : Timestamp) : Nat × Twap :=
  let c := advanceLoop t.params t.schedule now (t.binCount - t.nextBin) { nextBin := t.nextBin, queue := t.queue }
  (c.pushed, { t with nextBin := c.nextBin, queue := c.queue })

def Twap.done (t : Twap) : Bool := t.nextBin ≥ t.binCount

def AlmgrenChriss.advance (t : AlmgrenChriss) (now : Timestamp) : Nat × AlmgrenChriss :=
  let c := advanceLoop t.params.toTwapParams t.schedule now (t.binCount - t.nextBin)
    { nextBin := t.nextBin, queue := t.queue }
  (c.pushed, { t with nextBin := c.nextBin, queue := c.queue })

def AlmgrenChriss.done (t : AlmgrenChriss) : Bool := t.nextBin ≥ t.binCount

structure Advances (p : TwapParams) (schedule : List Shares) (now : Timestamp) (left : Nat) (c c' : Cursor)
    (n : Nat) : Prop where
  within : n ≤ left
  nextBin : c'.nextBin = c.nextBin + n
  orders : c'.queue.orders = c.queue.orders ++ ((schedule.drop c.nextBin).take n).map (p.child now)
  due : ∀ i, c.nextBin ≤ i → i < c.nextBin + n → p.boundary i ≤ now
  stops : n = left ∨ p.boundary (c.nextBin + n) > now ∨ c'.queue.full = true

theorem advanceLoop_advances (p : TwapParams) (schedule : List Shares) (now : Timestamp) (left : Nat) (c : Cursor)
    (size : c.nextBin + left ≤ schedule.length) :
    ∃ n, Advances p schedule now left c (advanceLoop p schedule now left c) n := by
  induction left generalizing c with
  | zero => exact ⟨0, Nat.le_refl _, rfl, by simp [advanceLoop], by omega, .inl rfl⟩
  | succ left ih =>
    rw [advanceLoop]
    split
    next early => exact ⟨0, Nat.zero_le _, rfl, by simp, by omega, .inr (.inl early)⟩
    next due =>
      split
      next full => exact ⟨0, Nat.zero_le _, rfl, by simp, by omega, .inr (.inr full)⟩
      next room =>
        have grown := (ChildOrderQueue.push_accepts (by simpa using room)
          (p.child now (schedule.getD c.nextBin 0))).2
        have inside : c.nextBin < schedule.length := by omega
        obtain ⟨n, within, nextBin, orders, dues, stops⟩ := ih
          { nextBin := c.nextBin + 1
            queue := (c.queue.push (p.child now (schedule.getD c.nextBin 0))).2
            pushed := c.pushed + 1 } (by simp only; omega)
        refine ⟨n + 1, by omega, by simp only [nextBin]; omega, ?_, ?_, ?_⟩
        · rw [orders, grown, List.drop_eq_getElem_cons inside, List.take_succ_cons, List.map_cons,
            List.getD_eq_getElem _ _ inside, List.append_assoc, List.singleton_append]
        · intro i first last
          rcases Nat.lt_or_eq_of_le first with later | rfl
          · exact dues i later (by simp only; omega)
          · exact UInt64.not_lt.mp due
        · simp only [Nat.add_right_comm c.nextBin 1 n, ← Nat.add_assoc] at stops ⊢
          simpa only [Nat.add_right_cancel_iff] using stops

namespace TwapParams

def crossed (p : TwapParams) (now : Timestamp) : Nat :=
  if now < p.startTs then 0 else (now.toNat - p.startTs.toNat) / p.binNs.toNat

theorem crossed_mono (p : TwapParams) {earlier later : Timestamp} (le : earlier ≤ later) :
    p.crossed earlier ≤ p.crossed later := by
  have further := UInt64.le_iff_toNat_le.mp le
  have ordered {a b : Timestamp} : a < b ↔ a.toNat < b.toNat := UInt64.lt_iff_toNat_lt
  simp only [crossed, ordered]
  split_ifs
  · exact Nat.le_refl _
  · exact Nat.zero_le _
  · omega
  · exact Nat.div_le_div_right (by omega)

variable {p : TwapParams} {n : Nat} (positive : 0 < p.binNs.toNat)
include positive

theorem le_crossed_iff (some : 0 < n) (now : Timestamp) :
    n ≤ p.crossed now ↔ p.startTs.toNat + n * p.binNs.toNat ≤ now.toNat := by
  have least : n ≤ n * p.binNs.toNat := Nat.le_mul_of_pos_right _ positive
  rw [crossed]
  by_cases early : now < p.startTs
  · have := UInt64.lt_iff_toNat_lt.mp early
    rw [if_pos early]
    omega
  · have started := UInt64.le_iff_toNat_le.mp (UInt64.not_lt.mp early)
    rw [if_neg early, Nat.le_div_iff_mul_le positive]
    omega

variable (small : p.startTs.toNat + n * p.binNs.toNat < 2 ^ 64)
include small

theorem boundary_toNat {i : Nat} (inside : i < n) :
    (p.boundary i).toNat = p.startTs.toNat + (i + 1) * p.binNs.toNat := by
  have most : (i + 1) * p.binNs.toNat ≤ n * p.binNs.toNat := Nat.mul_le_mul_right _ inside
  have least : i + 1 ≤ (i + 1) * p.binNs.toNat := Nat.le_mul_of_pos_right _ positive
  have index : (UInt64.ofNat (i + 1)).toNat = i + 1 := UInt64.toNat_ofNat_of_lt' (by change _ < 2 ^ 64; omega)
  rw [boundary, UInt64.toNat_add, UInt64.toNat_mul, index, Nat.mod_eq_of_lt (by omega), Nat.mod_eq_of_lt (by omega)]

theorem boundary_le_iff {i : Nat} (inside : i < n) (now : Timestamp) :
    p.boundary i ≤ now ↔ i < p.crossed now := by
  rw [UInt64.le_iff_toNat_le, boundary_toNat positive small inside, Nat.lt_iff_add_one_le,
    le_crossed_iff positive (Nat.succ_pos i)]

omit small

def span (p : TwapParams) : Nat := p.endTs.toNat - p.startTs.toNat

def lastBoundary (p : TwapParams) : Nat :=
  p.startTs.toNat + (p.span + p.binNs.toNat - 1) / p.binNs.toNat * p.binNs.toNat

section EndTs

variable (ordered : p.startTs < p.endTs) (room : p.endTs.toNat + p.binNs.toNat < 2 ^ 64)
include ordered

include room in
theorem binCount_exact : p.binCount = (p.span + p.binNs.toNat - 1) / p.binNs.toNat := by
  have before := UInt64.lt_iff_toNat_lt.mp ordered
  have difference : (p.endTs - p.startTs).toNat = p.span := UInt64.toNat_sub_of_le _ _ (UInt64.le_of_lt ordered)
  have sum : (p.endTs - p.startTs + p.binNs).toNat = p.span + p.binNs.toNat := by
    rw [UInt64.toNat_add, difference, span]
    exact Nat.mod_eq_of_lt (by omega)
  have pred : (p.endTs - p.startTs + p.binNs - 1).toNat = p.span + p.binNs.toNat - 1 := by
    rw [UInt64.toNat_sub_of_le _ _ (UInt64.le_iff_toNat_le.mpr (by rw [sum]; change 1 ≤ _; omega)), sum]
    rfl
  rw [binCount, UInt64.toNat_div, pred]

theorem lastBoundary_lt : p.lastBoundary < p.endTs.toNat + p.binNs.toNat := by
  have before := UInt64.lt_iff_toNat_lt.mp ordered
  have whole := Nat.div_mul_le_self (p.span + p.binNs.toNat - 1) p.binNs.toNat
  simp only [lastBoundary, span] at *
  omega

-- The bins are whole, so the last one ends by end_ts only when they fill the window.
theorem lastBoundary_le_iff : p.lastBoundary ≤ p.endTs.toNat ↔ p.binNs.toNat ∣ p.span := by
  have before := UInt64.lt_iff_toNat_lt.mp ordered
  have covers := Nat.lt_div_mul_add (a := p.span + p.binNs.toNat - 1) positive
  constructor
  · intro least
    refine ⟨(p.span + p.binNs.toNat - 1) / p.binNs.toNat, ?_⟩
    rw [Nat.mul_comm]
    simp only [lastBoundary, span] at *
    omega
  · intro ⟨k, whole⟩
    have count : (p.span + p.binNs.toNat - 1) / p.binNs.toNat = k := by
      rw [whole, Nat.add_sub_assoc positive, Nat.mul_add_div positive, Nat.div_eq_of_lt (by omega), Nat.add_zero]
    rw [lastBoundary, count, Nat.mul_comm, ← whole, span]
    omega

end EndTs

end TwapParams

namespace Twap

def strategy : Strategy Twap Timestamp where
  call t now := (t.advance now).2
  queue := queue
  withQueue t q := { t with queue := q }

def cursor (t : Twap) : Cursor := { nextBin := t.nextBin, queue := t.queue }

-- The loop left through its queue_.full() break.
def Stalled (t : Twap) (now : Timestamp) : Prop :=
  (t.advance now).2.nextBin < t.binCount ∧ t.params.boundary (t.advance now).2.nextBin ≤ now ∧
    (t.advance now).2.queue.full = true

structure Released (start : Twap) (d : Desk Twap) : Prop where
  fixed : d.strategy = { start with nextBin := d.strategy.nextBin, queue := d.strategy.queue }
  size : start.schedule.length = start.binCount
  progress : d.strategy.nextBin ≤ start.binCount
  shares : d.accepted.map ChildOrder.shares = start.schedule.take d.strategy.nextBin

section Runs

variable {start : Twap} {d : Desk Twap} {events : List (Event Timestamp)}

theorem Released.params (released : Released start d) : d.strategy.params = start.params := by
  rw [released.fixed]

theorem Released.binCount (released : Released start d) : d.strategy.binCount = start.binCount := by
  rw [released.fixed]

theorem Released.schedule (released : Released start d) : d.strategy.schedule = start.schedule := by
  rw [released.fixed]

theorem Released.advances (released : Released start d) (now : Timestamp) :
    ∃ n, Advances start.params start.schedule now (start.binCount - d.strategy.nextBin) d.strategy.cursor
      (d.strategy.advance now).2.cursor n := by
  have size := released.size
  have progress := released.progress
  have found := advanceLoop_advances start.params start.schedule now (start.binCount - d.strategy.nextBin)
    d.strategy.cursor (by simp only [cursor]; omega)
  obtain ⟨n, within, nextBin, orders, due, stops⟩ := found
  rw [← released.params, ← released.schedule, ← released.binCount] at *
  exact ⟨n, within, nextBin, orders, due, stops⟩

theorem Released.call (released : Released start d) (now : Timestamp) :
    Released start (strategy.step d (.call now)) := by
  obtain ⟨n, within, nextBin, orders, -, -⟩ := released.advances now
  have progress := released.progress
  simp only [cursor] at within nextBin orders
  refine ⟨?_, released.size, ?_, ?_⟩
  · have fixed := released.fixed
    simp only [Strategy.step, strategy, advance]
    rw [fixed]
  · change (d.strategy.advance now).2.nextBin ≤ _
    omega
  · change (d.accepted ++ gained d.strategy.queue (d.strategy.advance now).2.queue).map _ =
      start.schedule.take (d.strategy.advance now).2.nextBin
    rw [gained_append orders, List.map_append, released.shares, List.map_map, nextBin, List.take_add]
    congr 1
    exact List.map_id _

theorem Released.clear (released : Released start d) : Released start (strategy.step d .clear) := by
  refine ⟨?_, released.size, released.progress, released.shares⟩
  have fixed := released.fixed
  simp only [Strategy.step, strategy]
  rw [fixed]

theorem released_start (size : start.schedule.length = start.binCount) (fresh : start.nextBin = 0) :
    Released start { strategy := start } where
  fixed := rfl
  size := size
  progress := fresh ▸ Nat.zero_le _
  shares := by simp [fresh]

theorem run_released (size : start.schedule.length = start.binCount) (fresh : start.nextBin = 0)
    (events : List (Event Timestamp)) : Released start (strategy.run start events) :=
  Strategy.invariant (fun d _ => Released start d) (released_start size fresh)
    (fun _ _ now released => released.call now) (fun _ _ released => released.clear) events

section Punctual

variable (positive : 0 < start.params.binNs.toNat)
  (small : start.params.startTs.toNat + start.binCount * start.params.binNs.toNat < 2 ^ 64)
include positive small

theorem Released.reaches (released : Released start d) {now : Timestamp} (flows : ¬Stalled d.strategy now) :
    (d.strategy.advance now).2.nextBin =
      max d.strategy.nextBin (min start.binCount (start.params.crossed now)) := by
  obtain ⟨n, within, nextBin, -, due, stops⟩ := released.advances now
  have progress := released.progress
  have params := released.params
  have binCount := released.binCount
  have passed {i : Nat} (inside : i < start.binCount) :=
    TwapParams.boundary_le_iff positive small inside now
  simp only [cursor] at within nextBin due stops
  have last (some : 0 < n) : d.strategy.nextBin + n - 1 < start.params.crossed now :=
    (passed (by omega)).mp (due _ (by omega) (by omega))
  have next : d.strategy.nextBin + n = start.binCount ∨
      start.params.crossed now ≤ d.strategy.nextBin + n := by
    by_cases finished : d.strategy.nextBin + n = start.binCount
    · exact .inl finished
    · have inside : d.strategy.nextBin + n < start.binCount := by omega
      refine .inr (Nat.le_of_not_lt fun ahead => ?_)
      have reached := (passed inside).mpr ahead
      rcases stops with all | early | full
      · omega
      · exact UInt64.not_lt.mpr reached early
      · exact flows ⟨by omega, by rw [params, nextBin]; exact reached, full⟩
  rw [nextBin]
  rcases Nat.eq_zero_or_pos n with rfl | some
  · omega
  · have := last some
    omega

theorem run_highest (size : start.schedule.length = start.binCount) (fresh : start.nextBin = 0)
    (events : List (Event Timestamp)) (flows : strategy.Throughout (fun t now => ¬Stalled t now) start events) :
    Highest (fun now => min start.binCount (start.params.crossed now)) (Strategy.calls events)
      (strategy.run start events).strategy.nextBin := by
  refine (Strategy.invariant_throughout (fun d events => Released start d ∧
    Highest (fun now => min start.binCount (start.params.crossed now)) (Strategy.calls events) d.strategy.nextBin)
    ⟨released_start size fresh, ?_⟩ ?_ ?_ events flows).2
  · change Highest _ [] start.nextBin
    rw [fresh]
    exact highest_nil
  · intro events d now ⟨released, highest⟩ flows
    refine ⟨released.call now, ?_⟩
    change Highest _ _ (d.strategy.advance now).2.nextBin
    rw [Strategy.calls_append, released.reaches positive small flows]
    exact highest.snoc now
  · intro events d ⟨released, highest⟩
    refine ⟨released.clear, ?_⟩
    change Highest _ _ d.strategy.nextBin
    rw [Strategy.calls_append]
    simpa only [Strategy.calls, List.append_nil] using highest

end Punctual

structure Polled (start : Twap) (calls : List Timestamp) (nextBin : Nat) : Prop where
  unpolled : calls = [] → nextBin = 0
  latest : ∀ m ∈ calls, (∀ now ∈ calls, now ≤ m) → nextBin = min start.binCount (start.params.crossed m)

theorem polled_of_highest {calls : List Timestamp} {nextBin : Nat}
    (highest : Highest (fun now => min start.binCount (start.params.crossed now)) calls nextBin) :
    Polled start calls nextBin where
  unpolled none := (none ▸ highest).none
  latest m seen last := by
    refine highest.last seen fun now earlier => ?_
    have := start.params.crossed_mono (last now earlier)
    omega

end Runs

section Constructed

variable {params : TwapParams} {t : Twap} (built : construct params = .ok t)
include built

theorem construct_binNs : 0 < params.binNs.toNat := by
  unfold construct at built
  split at built
  · cases built
  · split at built
    · cases built
    next nonzero =>
      exact Nat.pos_of_ne_zero fun zero => nonzero (UInt64.toNat_inj.mp zero)

theorem construct_size : t.schedule.length = t.binCount := by
  obtain ⟨rfl, -, -⟩ := construct_ok built
  simp [split]

theorem construct_fresh : t.nextBin = 0 ∧ t.queue.orders = [] ∧ t.params = params := by
  obtain ⟨rfl, -, -⟩ := construct_ok built
  exact ⟨rfl, rfl, rfl⟩

/-- However a schedule is polled and its queue cleared, its bins come out once
each and in order; and where no call finds the queue full, the latest call alone
decides how many. -/
theorem releases_schedule (small : params.startTs.toNat + t.binCount * params.binNs.toNat < 2 ^ 64)
    (events : List (Event Timestamp)) :
    (∀ seen, seen <+: events →
      (strategy.run t seen).accepted.map ChildOrder.shares =
        t.schedule.take (strategy.run t seen).strategy.nextBin) ∧
    t.schedule.length = t.binCount ∧ (t.schedule.map UInt32.toNat).sum = params.totalShares.toNat ∧
    (∀ i j, i ≤ j → j < t.binCount →
      (t.schedule.getD j 0).toNat ≤ (t.schedule.getD i 0).toNat ∧
        (t.schedule.getD i 0).toNat ≤ (t.schedule.getD j 0).toNat + 1) ∧
    (strategy.Throughout (fun t now => ¬Stalled t now) t events →
      (∀ seen, seen <+: events →
        Polled t (Strategy.calls seen) (strategy.run t seen).strategy.nextBin) ∧
      ∀ other m, strategy.Throughout (fun t now => ¬Stalled t now) t other →
        (m ∈ Strategy.calls events ∧ ∀ now ∈ Strategy.calls events, now ≤ m) →
        (m ∈ Strategy.calls other ∧ ∀ now ∈ Strategy.calls other, now ≤ m) →
        (strategy.run t events).accepted.map ChildOrder.shares =
          (strategy.run t other).accepted.map ChildOrder.shares) := by
  have positive := construct_binNs built
  have size := construct_size built
  obtain ⟨fresh, -, same⟩ := construct_fresh built
  have released (events : List (Event Timestamp)) := run_released size fresh events
  have polled (events : List (Event Timestamp))
      (flows : strategy.Throughout (fun t now => ¬Stalled t now) t events) :
      Polled t (Strategy.calls events) (strategy.run t events).strategy.nextBin :=
    polled_of_highest (run_highest (same ▸ positive) (same ▸ small) size fresh events flows)
  refine ⟨fun seen _ => (released seen).shares, size, ?_, ?_, ?_⟩
  · obtain ⟨rfl, some, most⟩ := construct_ok built
    exact split_sum some most params.totalShares
  · intro i j le inside
    obtain ⟨rfl, some, most⟩ := construct_ok built
    change j < params.binCount at inside
    change ((split params.totalShares params.binCount).getD j 0).toNat ≤
        ((split params.totalShares params.binCount).getD i 0).toNat ∧ _
    rw [split_entry some most params.totalShares inside, split_entry some most params.totalShares (by omega)]
    split_ifs <;> omega
  · intro flows
    refine ⟨fun seen ⟨later, split⟩ => polled seen (Strategy.Throughout.earlier (split ▸ flows)), ?_⟩
    intro other m flows' ⟨seen, last⟩ ⟨seen', last'⟩
    rw [(released events).shares, (released other).shares, (polled events flows).latest m seen last,
      (polled other flows').latest m seen' last']

end Constructed

def thirds : Twap :=
  { params := { totalShares := 1000, endTs := 300, binNs := 100 }, schedule := [334, 333, 333], binCount := 3 }

theorem releases_schedule_thirds :
    (strategy.run thirds [.call 250, .clear, .call 300]).accepted.map ChildOrder.shares =
      thirds.schedule.take (strategy.run thirds [.call 250, .clear, .call 300]).strategy.nextBin :=
  (releases_schedule (show construct thirds.params = .ok thirds from rfl) (by decide)
    [.call 250, .clear, .call 300]).1 _ (List.prefix_refl _)

structure Fresh (t : Twap) : Prop where
  size : t.schedule.length = t.binCount
  nextBin : t.nextBin = 0
  queue : t.queue.orders = []
  ordered : t.params.startTs < t.params.endTs
  binNs : 0 < t.params.binNs.toNat
  counted : t.binCount = t.params.binCount
  some : 0 < t.binCount
  most : t.binCount ≤ kMaxScheduleBins

def Finished (t : Twap) (nows : List Timestamp) : Prop :=
  (strategy.run t (nows.map .call)).strategy.done = true ∧
    (strategy.run t (nows.map .call)).accepted.map ChildOrder.shares = t.schedule

def InTime (p : TwapParams) (nows : List Timestamp) : Prop :=
  p.binNs.toNat ∣ p.span ∨ ∃ now ∈ nows, p.lastBoundary ≤ now.toNat

section Fresh

variable {t : Twap} (fresh : Fresh t)
include fresh

theorem Fresh.queue_length (nows : List Timestamp) :
    (strategy.run t (nows.map .call)).strategy.queue.orders.length =
      (strategy.run t (nows.map .call)).strategy.nextBin := by
  have released := run_released fresh.size fresh.nextBin
  have held : (strategy.run t (nows.map .call)).strategy.queue.orders =
      (strategy.run t (nows.map .call)).accepted := by
    refine Strategy.queue_uncleared strategy t fresh.queue (fun before now => ?_) nows
    obtain ⟨n, -, -, orders, -, -⟩ := (released before).advances now
    exact ⟨_, orders⟩
  have count := congrArg List.length (released (nows.map .call)).shares
  have progress := (released (nows.map .call)).progress
  rw [List.length_map, List.length_take, fresh.size] at count
  rw [held]
  omega

theorem Fresh.flows (nows : List Timestamp) :
    strategy.Throughout (fun t now => ¬Stalled t now) t (nows.map .call) := by
  intro before now after split
  obtain ⟨earlier, rest, rfl, rfl, -⟩ := List.map_eq_append_iff.mp split
  rintro ⟨unfinished, -, full⟩
  have length := fresh.queue_length (earlier ++ [now])
  rw [List.map_append, List.map_singleton, Strategy.run_append] at length
  have binCount := (run_released fresh.size fresh.nextBin (earlier.map .call)).binCount
  have most := fresh.most
  change ((strategy.run t (earlier.map .call)).strategy.advance now).2.queue.orders.length =
    ((strategy.run t (earlier.map .call)).strategy.advance now).2.nextBin at length
  simp only [ChildOrderQueue.full, kMaxChildOrders, ge_iff_le, decide_eq_true_eq] at full
  simp only [kMaxScheduleBins] at most
  omega

theorem Fresh.finished_iff (room : t.params.endTs.toNat + t.params.binNs.toNat < 2 ^ 64) (nows : List Timestamp) :
    Finished t (nows ++ [t.params.endTs]) ↔ InTime t.params nows := by
  have last : t.params.startTs.toNat + t.binCount * t.params.binNs.toNat = t.params.lastBoundary := by
    rw [fresh.counted, TwapParams.binCount_exact fresh.binNs fresh.ordered room, TwapParams.lastBoundary]
  have before := TwapParams.lastBoundary_lt fresh.binNs fresh.ordered
  have released := run_released fresh.size fresh.nextBin ((nows ++ [t.params.endTs]).map .call)
  have highest := run_highest fresh.binNs (by omega) fresh.size fresh.nextBin _
    (fresh.flows (nows ++ [t.params.endTs]))
  rw [Strategy.calls_map] at highest
  have past (now : Timestamp) :
      t.binCount ≤ min t.binCount (t.params.crossed now) ↔ t.params.lastBoundary ≤ now.toNat := by
    rw [Nat.le_min, TwapParams.le_crossed_iff fresh.binNs fresh.some, last]
    exact and_iff_right (Nat.le_refl _)
  have all : Finished t (nows ++ [t.params.endTs]) ↔
      t.binCount ≤ (strategy.run t ((nows ++ [t.params.endTs]).map .call)).strategy.nextBin := by
    simp only [Finished, done, released.binCount, released.shares, ge_iff_le, decide_eq_true_eq]
    refine ⟨And.left, fun finished => ⟨finished, List.take_of_length_le ?_⟩⟩
    rw [fresh.size]
    exact finished
  rw [all, highest.le_iff fresh.some, InTime, ← TwapParams.lastBoundary_le_iff fresh.binNs fresh.ordered]
  simp only [past, List.mem_append, List.mem_singleton]
  constructor
  · rintro ⟨now, earlier | rfl, late⟩
    · exact .inr ⟨now, earlier, late⟩
    · exact .inl late
  · rintro (inside | ⟨now, earlier, late⟩)
    · exact ⟨t.params.endTs, .inr rfl, inside⟩
    · exact ⟨now, .inl earlier, late⟩

end Fresh

theorem construct_leaves_fresh {params : TwapParams} {t : Twap} (built : construct params = .ok t) :
    Fresh t ∧ t.params = params := by
  have size := construct_size built
  have positive := construct_binNs built
  have ordered : params.startTs < params.endTs := by
    unfold construct at built
    split at built
    · cases built
    next ordered => exact UInt64.not_le.mp ordered
  obtain ⟨rfl, some, most⟩ := construct_ok built
  exact ⟨⟨size, rfl, rfl, ordered, positive, rfl, some, most⟩, rfl⟩

end Twap

namespace AlmgrenChriss

def strategy : Strategy AlmgrenChriss Timestamp where
  call t now := (t.advance now).2
  queue := queue
  withQueue t q := { t with queue := q }

def Finished (t : AlmgrenChriss) (nows : List Timestamp) : Prop :=
  (strategy.run t (nows.map .call)).strategy.done = true ∧
    (strategy.run t (nows.map .call)).accepted.map ChildOrder.shares = t.schedule

def asTwap (t : AlmgrenChriss) : Twap :=
  { params := t.params.toTwapParams, schedule := t.schedule, binCount := t.binCount, nextBin := t.nextBin
    queue := t.queue }

theorem embeds : Strategy.Embeds strategy Twap.strategy asTwap := ⟨fun _ _ => rfl, fun _ => rfl, fun _ _ => rfl⟩

theorem finished_iff_asTwap (t : AlmgrenChriss) (nows : List Timestamp) :
    t.Finished nows ↔ t.asTwap.Finished nows := by
  rw [Finished, Twap.Finished, embeds.run t]
  rfl

theorem trajectory_length (remaining : ℕ → ℚ) (js : List ℕ) (acc : List ℚ × ℚ) :
    (js.foldl (fun (acc : List ℚ × ℚ) j => (acc.1 ++ [acc.2 - remaining j], remaining j)) acc).1.length =
      acc.1.length + js.length := by
  induction js generalizing acc with
  | nil => rfl
  | cons j rest ih =>
    rw [List.foldl_cons, ih, List.length_append, List.length_cons, List.length_cons, List.length_nil]
    omega

theorem sharesToTrade_length (lib : Libm) (params : AlmgrenChrissParams) :
    (sharesToTrade lib params).length = params.binCount := by
  simp only [sharesToTrade]
  split
  · exact List.length_replicate
  · rw [trajectory_length, List.length_nil, List.length_range, Nat.zero_add]

theorem construct_leaves_fresh {lib : Libm} {params : AlmgrenChrissParams} {t : AlmgrenChriss}
    (built : construct lib params = .ok t) : t.asTwap.Fresh ∧ t.params = params := by
  have size : (integerSchedule params.totalShares (sharesToTrade lib params)).length = params.binCount := by
    rw [integerSchedule, List.length_set, rounded, List.length_map, sharesToTrade_length]
  obtain ⟨-, -, some, most⟩ := construct_ok built
  unfold construct at built
  split at built
  · cases built
  next ordered =>
    split at built
    · cases built
    next nonzero =>
      iterate 4
        split at built
        · cases built
      cases built
      have positive : 0 < params.binNs.toNat :=
        Nat.pos_of_ne_zero fun zero => nonzero (UInt64.toNat_inj.mp zero)
      exact ⟨⟨size, rfl, rfl, UInt64.not_le.mp ordered, positive, rfl, some, most⟩, rfl⟩

end AlmgrenChriss

/-- A parent order is finished by a call at end_ts exactly when the bins divide
its window, unless an earlier call has already gone past the last boundary. -/
theorem finished_by_end_iff (nows : List Timestamp) :
    (∀ (params : TwapParams) (t : Twap), Twap.construct params = .ok t →
      params.endTs.toNat + params.binNs.toNat < 2 ^ 64 →
      (t.Finished (nows ++ [params.endTs]) ↔ Twap.InTime params nows)) ∧
    ∀ (lib : Libm) (params : AlmgrenChrissParams) (t : AlmgrenChriss),
      AlmgrenChriss.construct lib params = .ok t → params.endTs.toNat + params.binNs.toNat < 2 ^ 64 →
      (t.Finished (nows ++ [params.endTs]) ↔ Twap.InTime params.toTwapParams nows) := by
  constructor
  · intro params t built room
    obtain ⟨fresh, rfl⟩ := Twap.construct_leaves_fresh built
    exact fresh.finished_iff room nows
  · intro lib params t built room
    obtain ⟨fresh, rfl⟩ := AlmgrenChriss.construct_leaves_fresh built
    rw [AlmgrenChriss.finished_iff_asTwap]
    exact fresh.finished_iff room nows

-- Three bins of 100 fill a window of 300.
theorem finished_by_end_thirds : Twap.thirds.Finished [100, 300] :=
  ((finished_by_end_iff [100]).1 Twap.thirds.params Twap.thirds rfl (by decide)).mpr (.inl (by decide))

-- A window of 250 takes three bins as well, and the third boundary is at 300.
def overhang : Twap :=
  { params := { totalShares := 1000, endTs := 250, binNs := 100 }, schedule := [334, 333, 333], binCount := 3 }

theorem unfinished_by_end :
    ¬∀ (params : TwapParams) (t : Twap), Twap.construct params = .ok t →
      params.endTs.toNat + params.binNs.toNat < 2 ^ 64 → ∀ nows, t.Finished (nows ++ [params.endTs]) := by
  intro always
  have finished := always overhang.params overhang rfl (by decide) []
  exact absurd finished.1 (by decide)

end ItchLob.Exec
