import ItchLob.Book.OrderBook

set_option autoImplicit false

namespace ItchLob.Book

open Itch FiniteMap

/-- bids_, bid_level_count_ and best_bid_idx_, or their ask counterparts. -/
structure LadderSide where
  levels : Array Level
  levelCount : UInt64 := 0
  bestIdx : Option Nat := none

-- `window` stands for the price-to-window conversion
-- static_cast<uint64_t>(static_cast<double>(price) * window_pct_).
structure LadderBook where
  tickSize : UInt32
  minPrice : UInt32
  maxPrice : UInt32
  window : UInt32 → UInt64
  numTicks : Nat
  bid : LadderSide
  ask : LadderSide
  orders : Orders := ∅

namespace LadderSide

def levelAt (levels : Array Level) (i : Nat) : Level := levels.getD i {}

def level (s : LadderSide) (i : Nat) : Level := levelAt s.levels i

-- A higher index is a better bid, a lower one a better ask.
def better (bid : Bool) (i best : Nat) : Bool := if bid then best < i else i < best

def add (bid : Bool) (s : LadderSide) (i : Nat) (shares : UInt32) : LadderSide :=
  let lvl := s.level i
  { levels :=
      s.levels.setIfInBounds i { shares := lvl.shares + shares.toUInt64, orders := lvl.orders + 1 }
    levelCount := if lvl.orders = 0 then s.levelCount + 1 else s.levelCount
    bestIdx :=
      match s.bestIdx with
      | none => some i
      | some best => if better bid i best then some i else some best }

def retreatBestBid (levels : Array Level) : Nat → Option Nat
  | 0 => none
  | i + 1 => if 0 < (levelAt levels i).orders then some i else retreatBestBid levels i

def advanceFrom (levels : Array Level) : Nat → Nat → Option Nat
  | 0, _ => none
  | left + 1, i => if 0 < (levelAt levels i).orders then some i else advanceFrom levels left (i + 1)

def advanceBestAsk (levels : Array Level) (numTicks best : Nat) : Option Nat :=
  advanceFrom levels (numTicks - (best + 1)) (best + 1)

def sub (bid : Bool) (numTicks : Nat) (s : LadderSide) (i : Nat) (shares : UInt32)
    (orderGone : Bool) : LadderSide :=
  let l := s.level i
  let left := l.shares - (if shares.toUInt64 < l.shares then shares.toUInt64 else l.shares)
  let count := if orderGone && 0 < l.orders then l.orders - 1 else l.orders
  let levels := s.levels.setIfInBounds i { shares := left, orders := count }
  if count = 0 then
    { levels
      levelCount := s.levelCount - 1
      bestIdx :=
        if s.bestIdx = some i then
          if bid then retreatBestBid levels i else advanceBestAsk levels numTicks i
        else s.bestIdx }
  else { s with levels }

def copyInto (fresh old : Array Level) (offset count : Nat) : Array Level :=
  (List.range count).foldl (fun acc i => acc.setIfInBounds (i + offset) (levelAt old i)) fresh

def resize (s : LadderSide) (offset numTicks newNumTicks : Nat) : LadderSide :=
  { s with
    levels := copyInto (Array.replicate newNumTicks {}) s.levels offset numTicks
    bestIdx := s.bestIdx.map (· + offset) }

end LadderSide

namespace LadderBook

def snapToTick (price tickSize : UInt32) : UInt32 := (price / tickSize) * tickSize

def windowLow (window : UInt32 → UInt64) (basePrice : UInt32) : UInt32 :=
  if window basePrice < basePrice.toUInt64 then (basePrice.toUInt64 - window basePrice).toUInt32 else 0

def windowHigh (window : UInt32 → UInt64) (basePrice : UInt32) : UInt32 :=
  (min (basePrice.toUInt64 + window basePrice) 0xFFFFFFFF).toUInt32

-- none is the std::invalid_argument the constructor throws.
def checkRange (minPrice maxPrice : UInt32) : Option UInt32 :=
  if maxPrice < minPrice then none else some maxPrice

def ticks (minPrice maxPrice tickSize : UInt32) : Nat :=
  (maxPrice - minPrice).toNat / tickSize.toNat + 1

def ofRange (tickSize minPrice maxPrice : UInt32) (window : UInt32 → UInt64) : Option LadderBook :=
  (checkRange minPrice maxPrice).map fun maxPrice =>
    let numTicks := ticks minPrice maxPrice tickSize
    { tickSize, minPrice, maxPrice, window, numTicks
      bid := { levels := Array.replicate numTicks {} }
      ask := { levels := Array.replicate numTicks {} } }

def construct (basePrice tickSize : UInt32) (window : UInt32 → UInt64) : Option LadderBook :=
  let tick := if tickSize = 0 then 1 else tickSize
  ofRange tick (snapToTick (windowLow window basePrice) tick) (windowHigh window basePrice) window

def inRange (b : LadderBook) (price : UInt32) : Bool := b.minPrice ≤ price && price ≤ b.maxPrice

def kMaxTicks : Nat := 8000000

def resizeRange (b : LadderBook) (newMin newMax : UInt32) (newNumTicks : Nat) : LadderBook :=
  let offset := (b.minPrice - newMin).toNat / b.tickSize.toNat
  { b with
    bid := b.bid.resize offset b.numTicks newNumTicks
    ask := b.ask.resize offset b.numTicks newNumTicks
    minPrice := newMin
    maxPrice := newMax
    numTicks := newNumTicks }

def growToInclude (b : LadderBook) (price : UInt32) : Bool × LadderBook :=
  let newMin :=
    if price < b.minPrice then min b.minPrice (snapToTick (windowLow b.window price) b.tickSize)
    else b.minPrice
  let newMax :=
    if b.maxPrice < price then max b.maxPrice (windowHigh b.window price) else b.maxPrice
  if newMin = b.minPrice ∧ newMax = b.maxPrice then (true, b)
  else
    let newNumTicks := ticks newMin newMax b.tickSize
    if kMaxTicks < newNumTicks then (false, b)
    else (true, b.resizeRange newMin newMax newNumTicks)

def idx (b : LadderBook) (price : UInt32) : Nat := ((price - b.minPrice) / b.tickSize).toNat

def priceAt (b : LadderBook) (i : Nat) : UInt32 := b.minPrice + UInt32.ofNat i * b.tickSize

def levelAdd (b : LadderBook) (side : Side) (price shares : UInt32) : LadderBook :=
  if side = Side.buy then { b with bid := b.bid.add true (b.idx price) shares }
  else { b with ask := b.ask.add false (b.idx price) shares }

def add (b : LadderBook) (ref : UInt64) (side : Side) (shares price : UInt32) : Bool × LadderBook :=
  let grown := if b.inRange price then (true, b) else b.growToInclude price
  if !grown.1 then (false, grown.2)
  else
    let b := grown.2
    if (price - b.minPrice) % b.tickSize ≠ 0 then (false, b)
    else
      match b.orders.lookup ref with
      | some _ => (false, b)
      | none =>
        (true, levelAdd { b with orders := b.orders.insert ref ⟨shares, price, side⟩ } side price shares)

def levelSub (b : LadderBook) (side : Side) (price shares : UInt32) (orderGone : Bool) : LadderBook :=
  let i := b.idx price
  if side = Side.buy then { b with bid := b.bid.sub true b.numTicks i shares orderGone }
  else { b with ask := b.ask.sub false b.numTicks i shares orderGone }

def locator : Locator LadderBook where
  orders := orders
  setOrders := fun b orders => { b with orders := orders }
  levelSub := levelSub

def reduce (b : LadderBook) (ref : UInt64) (shares : UInt32) : Bool × LadderBook :=
  locator.reduce b ref shares

def execute (b : LadderBook) (ref : UInt64) (shares : UInt32) : Bool × LadderBook := b.reduce ref shares
def cancel (b : LadderBook) (ref : UInt64) (shares : UInt32) : Bool × LadderBook := b.reduce ref shares

def remove (b : LadderBook) (ref : UInt64) : Bool × LadderBook := locator.remove b ref

def replace (b : LadderBook) (orig next : UInt64) (shares price : UInt32) : Bool × LadderBook :=
  locator.replace add b orig next shares price

def call (b : LadderBook) : Call → Bool × LadderBook
  | .add ref side shares price => b.add ref side shares price
  | .execute ref shares => b.execute ref shares
  | .cancel ref shares => b.cancel ref shares
  | .remove ref => b.remove ref
  | .replace orig next shares price => b.replace orig next shares price

def best (b : LadderBook) (s : LadderSide) : Option Quote :=
  s.bestIdx.map fun i => { price := b.priceAt i, shares := (s.level i).shares }

def bestBid (b : LadderBook) : Option Quote := b.best b.bid
def bestAsk (b : LadderBook) : Option Quote := b.best b.ask

def openOrders (b : LadderBook) : Nat := size b.orders
def bidLevels (b : LadderBook) : Nat := b.bid.levelCount.toNat
def askLevels (b : LadderBook) : Nat := b.ask.levelCount.toNat

def view (b : LadderBook) : View :=
  { bestBid := b.bestBid.map Quote.exact
    bestAsk := b.bestAsk.map Quote.exact
    openOrders := b.openOrders
    bidLevels := b.bidLevels
    askLevels := b.askLevels }

end LadderBook

structure Range where
  lo : Nat
  hi : Nat
  deriving DecidableEq, Repr

def Range.covers (r : Range) (price : Nat) : Bool := r.lo ≤ price && price ≤ r.hi

def Range.around (tick : Nat) (window : Nat → Nat) (price : Nat) : Range :=
  { lo := (price - window price) / tick * tick, hi := min (price + window price) (2 ^ 32 - 1) }

def Range.grown (tick : Nat) (window : Nat → Nat) (r : Range) (price : Nat) : Range :=
  { lo := if price < r.lo then (Range.around tick window price).lo else r.lo
    hi := if r.hi < price then (Range.around tick window price).hi else r.hi }

def Range.ticks (tick : Nat) (r : Range) : Nat := (r.hi - r.lo) / tick + 1

/-- Refused are exactly the prices off the tick grid and those that are outside
the range and cannot be grown into it within kMaxTicks. -/
def Gate.ladder (tick : Nat) (window : Nat → Nat) : Gate Range :=
  ⟨fun r price =>
    if r.covers price then (price % tick = 0, r)
    else if (r.grown tick window price).ticks tick ≤ LadderBook.kMaxTicks then
      (price % tick = 0, r.grown tick window price)
    else (false, r)⟩

end ItchLob.Book
