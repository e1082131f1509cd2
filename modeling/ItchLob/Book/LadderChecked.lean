import ItchLob.Book.LadderRefinement

set_option autoImplicit false

namespace ItchLob.Book

open Itch FiniteMap

-- The operations of LadderBook once more, with no result where the class would
-- index past an array, wrap a price, drive a level counter below zero or throw.
namespace Checked

def minus (a b : UInt32) : Option UInt32 := if b ≤ a then some (a - b) else none

def minus64 (a b : UInt64) : Option UInt64 := if b ≤ a then some (a - b) else none

def addSide (bid : Bool) (s : LadderSide) (i : Nat) (shares : UInt32) : Option LadderSide :=
  s.levels[i]?.map fun (lvl : Level) =>
    { levels :=
        s.levels.setIfInBounds i { shares := lvl.shares + shares.toUInt64, orders := lvl.orders + 1 }
      levelCount := if lvl.orders = 0 then s.levelCount + 1 else s.levelCount
      bestIdx :=
        match s.bestIdx with
        | none => some i
        | some best => if LadderSide.better bid i best then some i else some best }

def retreatBestBid (levels : Array Level) : Nat → Option (Option Nat)
  | 0 => some none
  | i + 1 => levels[i]?.bind fun (l : Level) => if 0 < l.orders then some (some i) else retreatBestBid levels i

def advanceFrom (levels : Array Level) : Nat → Nat → Option (Option Nat)
  | 0, _ => some none
  | left + 1, i =>
    levels[i]?.bind fun (l : Level) => if 0 < l.orders then some (some i) else advanceFrom levels left (i + 1)

def advanceBestAsk (levels : Array Level) (numTicks best : Nat) : Option (Option Nat) :=
  advanceFrom levels (numTicks - (best + 1)) (best + 1)

def subSide (bid : Bool) (numTicks : Nat) (s : LadderSide) (i : Nat) (shares : UInt32)
    (orderGone : Bool) : Option LadderSide :=
  s.levels[i]?.bind fun (l : Level) =>
    let left := l.shares - (if shares.toUInt64 < l.shares then shares.toUInt64 else l.shares)
    let count := if orderGone && 0 < l.orders then l.orders - 1 else l.orders
    let levels := s.levels.setIfInBounds i { shares := left, orders := count }
    if count = 0 then
      if s.levelCount = 0 then none
      else
        let bestIdx :=
          if s.bestIdx = some i then
            if bid then retreatBestBid levels i else advanceBestAsk levels numTicks i
          else some s.bestIdx
        bestIdx.map fun bestIdx => { levels, levelCount := s.levelCount - 1, bestIdx }
    else some { s with levels }

def copyInto (fresh old : Array Level) (offset : Nat) : Nat → Option (Array Level)
  | 0 => some fresh
  | i + 1 =>
    (copyInto fresh old offset i).bind fun acc =>
      old[i]?.bind fun (l : Level) =>
        if i + offset < acc.size then some (acc.setIfInBounds (i + offset) l) else none

def resizeSide (s : LadderSide) (offset numTicks newNumTicks : Nat) : Option LadderSide :=
  (copyInto (Array.replicate newNumTicks {}) s.levels offset numTicks).map fun levels =>
    { s with levels, bestIdx := s.bestIdx.map (· + offset) }

def windowLow (window : UInt32 → UInt64) (basePrice : UInt32) : Option UInt32 :=
  if window basePrice < basePrice.toUInt64 then
    (minus64 basePrice.toUInt64 (window basePrice)).map UInt64.toUInt32
  else some 0

def ticks (minPrice maxPrice tickSize : UInt32) : Option Nat :=
  (minus maxPrice minPrice).map fun span => span.toNat / tickSize.toNat + 1

def ofRange (tickSize minPrice maxPrice : UInt32) (window : UInt32 → UInt64) : Option LadderBook :=
  (LadderBook.checkRange minPrice maxPrice).bind fun maxPrice =>
    (ticks minPrice maxPrice tickSize).map fun numTicks =>
      { tickSize, minPrice, maxPrice, window, numTicks
        bid := { levels := Array.replicate numTicks {} }
        ask := { levels := Array.replicate numTicks {} } }

def construct (basePrice tickSize : UInt32) (window : UInt32 → UInt64) : Option LadderBook :=
  let tick := if tickSize = 0 then 1 else tickSize
  (windowLow window basePrice).bind fun low =>
    ofRange tick (LadderBook.snapToTick low tick) (LadderBook.windowHigh window basePrice) window

def resizeRange (b : LadderBook) (newMin newMax : UInt32) (newNumTicks : Nat) : Option LadderBook :=
  (minus b.minPrice newMin).bind fun span =>
    let offset := span.toNat / b.tickSize.toNat
    (resizeSide b.bid offset b.numTicks newNumTicks).bind fun bid =>
      (resizeSide b.ask offset b.numTicks newNumTicks).map fun ask =>
        { b with bid, ask, minPrice := newMin, maxPrice := newMax, numTicks := newNumTicks }

def growToInclude (b : LadderBook) (price : UInt32) : Option (Bool × LadderBook) :=
  let newMin :=
    if price < b.minPrice then
      (windowLow b.window price).map fun low => min b.minPrice (LadderBook.snapToTick low b.tickSize)
    else some b.minPrice
  let newMax :=
    if b.maxPrice < price then max b.maxPrice (LadderBook.windowHigh b.window price) else b.maxPrice
  newMin.bind fun newMin =>
    if newMin = b.minPrice ∧ newMax = b.maxPrice then some (true, b)
    else
      (ticks newMin newMax b.tickSize).bind fun newNumTicks =>
        if LadderBook.kMaxTicks < newNumTicks then some (false, b)
        else (resizeRange b newMin newMax newNumTicks).map fun b => (true, b)

def idx (b : LadderBook) (price : UInt32) : Option Nat :=
  (minus price b.minPrice).map fun span => (span / b.tickSize).toNat

def priceAt (b : LadderBook) (i : Nat) : Option UInt32 :=
  if b.minPrice.toNat + i * b.tickSize.toNat < 2 ^ 32 then some (b.priceAt i) else none

def levelAdd (b : LadderBook) (side : Side) (price shares : UInt32) : Option LadderBook :=
  (idx b price).bind fun i =>
    if side = Side.buy then (addSide true b.bid i shares).map fun bid => { b with bid }
    else (addSide false b.ask i shares).map fun ask => { b with ask }

def add (b : LadderBook) (ref : UInt64) (side : Side) (shares price : UInt32) : Option (Bool × LadderBook) :=
  (if b.inRange price then some (true, b) else growToInclude b price).bind fun grown =>
    if !grown.1 then some (false, grown.2)
    else
      let b := grown.2
      (minus price b.minPrice).bind fun span =>
        if span % b.tickSize ≠ 0 then some (false, b)
        else
          match b.orders.lookup ref with
          | some _ => some (false, b)
          | none =>
            (levelAdd { b with orders := b.orders.insert ref ⟨shares, price, side⟩ } side price shares).map
              fun b => (true, b)

def levelSub (b : LadderBook) (side : Side) (price shares : UInt32) (orderGone : Bool) : Option LadderBook :=
  (idx b price).bind fun i =>
    if side = Side.buy then (subSide true b.numTicks b.bid i shares orderGone).map fun bid => { b with bid }
    else (subSide false b.numTicks b.ask i shares orderGone).map fun ask => { b with ask }

def reduce (b : LadderBook) (ref : UInt64) (shares : UInt32) : Option (Bool × LadderBook) :=
  match b.orders.lookup ref with
  | none => some (false, b)
  | some o =>
    let qty := if shares < o.shares then shares else o.shares
    let left := o.shares - qty
    let gone : Bool := left = 0
    let orders := if gone then b.orders.erase ref else b.orders.insert ref { o with shares := left }
    (levelSub { b with orders } o.side o.price qty gone).map fun b => (true, b)

def remove (b : LadderBook) (ref : UInt64) : Option (Bool × LadderBook) :=
  match b.orders.lookup ref with
  | none => some (false, b)
  | some o =>
    (levelSub { b with orders := b.orders.erase ref } o.side o.price o.shares true).map fun b => (true, b)

def replace (b : LadderBook) (orig next : UInt64) (shares price : UInt32) : Option (Bool × LadderBook) :=
  match b.orders.lookup orig with
  | none => some (false, b)
  | some o => (remove b orig).bind fun removed => add removed.2 next o.side shares price

def call (b : LadderBook) : Call → Option (Bool × LadderBook)
  | .add ref side shares price => add b ref side shares price
  | .execute ref shares => reduce b ref shares
  | .cancel ref shares => reduce b ref shares
  | .remove ref => remove b ref
  | .replace orig next shares price => replace b orig next shares price

def best (b : LadderBook) (s : LadderSide) : Option (Option Quote) :=
  match s.bestIdx with
  | none => some none
  | some i =>
    s.levels[i]?.bind fun (l : Level) => (priceAt b i).map fun price => some { price, shares := l.shares }

section Side

variable {s : LadderSide} {bid : Bool} {i n : Nat} {shares : UInt32}

theorem minus_some {a b : UInt32} (le : b ≤ a) : minus a b = some (a - b) := if_pos le

theorem read_some {levels : Array Level} (inside : i < levels.size) :
    levels[i]? = some (LadderSide.levelAt levels i) := by
  rw [LadderSide.levelAt, Array.getD_eq_getD_getElem?, Array.getElem?_eq_getElem inside, Option.getD_some]

theorem addSide_some (inside : i < s.levels.size) : addSide bid s i shares = some (s.add bid i shares) := by
  rw [addSide, read_some inside]
  rfl

theorem retreat_checked {levels : Array Level} (start : Nat) (inside : start ≤ levels.size) :
    retreatBestBid levels start = some (LadderSide.retreatBestBid levels start) := by
  induction start with
  | zero => rfl
  | succ i ih =>
    rw [retreatBestBid, read_some (by omega), Option.bind_some, ih (by omega), LadderSide.retreatBestBid]
    split <;> rfl

theorem advance_checked {levels : Array Level} (left start : Nat) (inside : start + left ≤ levels.size) :
    advanceFrom levels left start = some (LadderSide.advanceFrom levels left start) := by
  induction left generalizing start with
  | zero => rfl
  | succ left ih =>
    rw [advanceFrom, read_some (by omega), Option.bind_some, ih (start + 1) (by omega), LadderSide.advanceFrom]
    split <;> rfl

theorem subSide_some (size : s.levels.size = n) (inside : i < n) (counted : s.levelCount ≠ 0) (gone : Bool) :
    subSide bid n s i shares gone = some (s.sub bid n i shares gone) := by
  have scan (l : Level) :
      (if bid then retreatBestBid (s.levels.setIfInBounds i l) i
        else advanceBestAsk (s.levels.setIfInBounds i l) n i) =
      some (if bid then LadderSide.retreatBestBid (s.levels.setIfInBounds i l) i
        else LadderSide.advanceBestAsk (s.levels.setIfInBounds i l) n i) := by
    have same : (s.levels.setIfInBounds i l).size = n := by rw [Array.size_setIfInBounds, size]
    rw [retreat_checked i (by omega), advanceBestAsk, advance_checked _ _ (by omega),
      LadderSide.advanceBestAsk, apply_ite some]
  rw [subSide, read_some (by omega), Option.bind_some]
  simp only [scan, counted, if_false, LadderSide.sub, LadderSide.level]
  rw [← apply_ite some, Option.map_some, ← apply_ite some]
  rfl

theorem copyInto_some (fresh old : Array Level) (offset count : Nat) (readable : count ≤ old.size)
    (room : offset + count ≤ fresh.size) :
    copyInto fresh old offset count = some (LadderSide.copyInto fresh old offset count) := by
  induction count with
  | zero => rfl
  | succ count ih =>
    have size := LadderSide.copyInto_size fresh old offset count
    rw [copyInto, ih (by omega) (by omega), Option.bind_some, read_some (by omega), Option.bind_some,
      if_pos (by omega), LadderSide.copyInto, LadderSide.copyInto, List.range_succ, List.foldl_append]
    rfl

theorem resizeSide_some {offset newTicks : Nat} (size : s.levels.size = n) (room : offset + n ≤ newTicks) :
    resizeSide s offset n newTicks = some (s.resize offset n newTicks) := by
  rw [resizeSide, copyInto_some _ _ _ _ (by omega) (by rw [Array.size_replicate]; exact room)]
  rfl

end Side

section Range

variable {tick : UInt32} {window : UInt32 → UInt64} {b : LadderBook} {d : Bool → Depth} {price : UInt32}

theorem windowLow_some (window : UInt32 → UInt64) (price : UInt32) :
    windowLow window price = some (LadderBook.windowLow window price) := by
  unfold windowLow LadderBook.windowLow
  split
  next less => rw [minus64, if_pos (UInt64.le_of_lt less), Option.map_some]
  next => rfl

theorem ticks_some {lo hi : UInt32} (ordered : lo.toNat ≤ hi.toNat) (tick : UInt32) :
    ticks lo hi tick = some (LadderBook.ticks lo hi tick) := by
  rw [ticks, minus_some (UInt32.le_iff_toNat_le.mpr ordered)]
  rfl

theorem resizeRange_some (valid : LadderBook.Valid tick window b d) (positive : 0 < tick.toNat)
    {newMin newMax : UInt32} (lower : newMin.toNat ≤ b.range.lo) (upper : b.range.hi ≤ newMax.toNat)
    (aligned : tick.toNat ∣ newMin.toNat) :
    resizeRange b newMin newMax (LadderBook.ticks newMin newMax tick) =
      some (b.resizeRange newMin newMax (LadderBook.ticks newMin newMax tick)) := by
  obtain ⟨-, room⟩ := valid.fits.shift positive lower upper aligned
  rw [resizeRange, minus_some (UInt32.le_iff_toNat_le.mpr lower), Option.bind_some]
  have bids := resizeSide_some (valid.holds true).size room
  have asks := resizeSide_some (valid.holds false).size room
  change resizeSide b.bid _ _ _ = _ at bids
  change resizeSide b.ask _ _ _ = _ at asks
  simp only [bids, asks, Option.bind_some, Option.map_some]
  rfl

theorem growToInclude_some (valid : LadderBook.Valid tick window b d) (positive : 0 < tick.toNat)
    (narrow : ∀ p, (window p).toNat < 2 ^ 63) (price : UInt32) :
    growToInclude b price = some (b.growToInclude price) := by
  have low := valid.fits.newMin price
  have high := valid.fits.newMax narrow price
  have wider := LadderBook.grown_wider (LadderBook.exactWindow window) tick.toNat b.range price.toNat_lt
  have aligned := LadderBook.grown_aligned (LadderBook.exactWindow window) valid.fits.aligned price.toNat
  have ordered := valid.fits.ordered
  unfold growToInclude LadderBook.growToInclude
  rw [windowLow_some, Option.map_some, ← apply_ite some, Option.bind_some]
  dsimp only
  revert low high
  generalize (if price < b.minPrice then
    min b.minPrice (LadderBook.snapToTick (LadderBook.windowLow b.window price) b.tickSize)
    else b.minPrice) = newMin
  generalize (if b.maxPrice < price then max b.maxPrice (LadderBook.windowHigh b.window price)
    else b.maxPrice) = newMax
  intro low high
  rw [← low] at wider aligned
  rw [← high] at wider
  have resized := resizeRange_some valid positive wider.1 wider.2 aligned
  rw [← valid.fits.tickSize] at resized
  rw [ticks_some (by omega), Option.bind_some, resized, Option.map_some, ← apply_ite some, ← apply_ite some]

theorem ofRange_some {lo hi : UInt32} (ordered : lo.toNat ≤ hi.toNat) (tick : UInt32)
    (window : UInt32 → UInt64) : ofRange tick lo hi window = LadderBook.ofRange tick lo hi window := by
  unfold ofRange LadderBook.ofRange LadderBook.checkRange
  split
  · rfl
  · rw [Option.bind_some, ticks_some ordered]
    rfl

theorem construct_some (base tickSize : UInt32) (narrow : ∀ p, (window p).toNat < 2 ^ 63) :
    construct base tickSize window = LadderBook.construct base tickSize window := by
  rw [construct, windowLow_some, Option.bind_some]
  exact ofRange_some (LadderBook.window_ordered _ base narrow) _ window

end Range

section Operations

variable {tick : UInt32} {window : UInt32 → UInt64} {b : LadderBook} {d : Bool → Depth} {price : UInt32}
  {n : Nat} {s : Naive Book.Range}

theorem idx_some (above : b.minPrice ≤ price) : idx b price = some (b.idx price) := by
  rw [idx, minus_some above]
  rfl

theorem levelAdd_some (above : b.minPrice ≤ price) (side : Side) (shares : UInt32)
    (inside : ∀ bid, b.idx price < (b.side bid).levels.size) :
    levelAdd b side price shares = some (b.levelAdd side price shares) := by
  have bids : addSide true b.bid (b.idx price) shares = some _ := addSide_some (inside true)
  have asks : addSide false b.ask (b.idx price) shares = some _ := addSide_some (inside false)
  rw [levelAdd, idx_some above, Option.bind_some, bids, asks, Option.map_some, Option.map_some,
    ← apply_ite some]
  rfl

theorem levelSub_some (valid : LadderBook.Valid tick window b d) (positive : 0 < tick.toNat) (side : Side)
    (shares : UInt32) (gone : Bool) (occupied : 0 < (d (isBuy side)).orders price.toNat)
    (counted : 0 < (d (isBuy side)).levels) :
    levelSub b side price shares gone = some (b.levelSub side price shares gone) := by
  obtain ⟨i, inside, here⟩ := (valid.holds (isBuy side)).onGrid _ occupied
  have index := valid.fits.idx positive here
  have above : b.minPrice ≤ price := UInt32.le_iff_toNat_le.mpr (by
    change b.range.lo ≤ _
    omega)
  have left : (b.side (isBuy side)).levelCount ≠ 0 := by
    intro zero
    have levels := (valid.holds (isBuy side)).levels
    rw [zero, UInt64.toNat_zero] at levels
    omega
  rw [levelSub, idx_some above, Option.bind_some, index]
  have size := (valid.holds (isBuy side)).size
  by_cases buy : side = Side.buy
  · simp only [isBuy, buy, decide_true, LadderBook.side, if_true] at left size
    rw [if_pos buy, subSide_some size inside left, Option.map_some, LadderBook.levelSub, if_pos buy, index]
  · simp only [isBuy, buy, decide_false, LadderBook.side, Bool.false_eq_true, if_false] at left size
    rw [if_neg buy, subSide_some size inside left, Option.map_some, LadderBook.levelSub, if_neg buy, index]

theorem add_some (related : LadderBook.Simulates tick window n b s)
    (positive : 0 < tick.toNat) (narrow : ∀ p, (window p).toNat < 2 ^ 63) (ref : UInt64) (side : Side)
    (shares price : UInt32) : add b ref side shares price = some (b.add ref side shares price) := by
  have admits := LadderBook.admit_spec related.valid positive narrow
    (fun bid p none => sharesAt_unoccupied bid s.orders p none) price
  rw [add, growToInclude_some related.valid positive narrow, ← apply_ite some, Option.bind_some]
  unfold LadderBook.add
  revert admits
  generalize (if b.inRange price then (true, b) else b.growToInclude price) = grown
  rintro ⟨kept, -, -, covers, -⟩
  dsimp only
  cases grew : grown.1 with
  | false => rfl
  | true =>
    have covered := covers grew
    simp only [Book.Range.covers, Bool.and_eq_true, decide_eq_true_eq] at covered
    have above : grown.2.minPrice ≤ price := UInt32.le_iff_toNat_le.mpr covered.1
    rw [minus_some above, Option.bind_some]
    by_cases grid : (price - grown.2.minPrice) % grown.2.tickSize = 0
    · obtain ⟨i, inside, here⟩ := kept.fits.onGrid positive covered
        (Nat.dvd_of_mod_eq_zero ((kept.fits.remainder covered.1).mp grid))
      have index := kept.fits.idx positive here
      cases found : grown.2.orders.lookup ref with
      | some o => simp [grid]
      | none =>
        have placed := levelAdd_some (b := { grown.2 with
          orders := grown.2.orders.insert ref ⟨shares, price, side⟩ }) above side shares (fun bid => by
            have size := (kept.holds bid).size
            change grown.2.idx price < (grown.2.side bid).levels.size
            omega)
        simp [grid, placed]
    · simp [grid]

theorem release_some (related : LadderBook.Simulates tick window n b s)
    (positive : 0 < tick.toNat) {ref : UInt64} {o : Order} (found : b.orders.lookup ref = some o)
    (orders : Orders) (shares : UInt32) (gone : Bool) :
    levelSub { b with orders } o.side o.price shares gone =
      some (LadderBook.levelSub { b with orders } o.side o.price shares gone) := by
  have same : b.orders = s.orders := related.orders
  rw [same] at found
  obtain ⟨occupied, -, counted⟩ := depths_found found
  have stored := (LadderBook.locator_sound tick window positive).valid_set b orders _ related.valid
  exact levelSub_some stored positive o.side shares gone occupied counted

theorem reduce_some (related : LadderBook.Simulates tick window n b s)
    (positive : 0 < tick.toNat) (ref : UInt64) (shares : UInt32) :
    reduce b ref shares = some (b.reduce ref shares) := by
  simp only [reduce, LadderBook.reduce, Locator.reduce, LadderBook.locator]
  cases found : b.orders.lookup ref with
  | none => rfl
  | some o =>
    dsimp only
    rw [release_some related positive found]
    rfl

theorem remove_some (related : LadderBook.Simulates tick window n b s)
    (positive : 0 < tick.toNat) (ref : UInt64) : remove b ref = some (b.remove ref) := by
  simp only [remove, LadderBook.remove, Locator.remove, LadderBook.locator]
  cases found : b.orders.lookup ref with
  | none => rfl
  | some o =>
    dsimp only
    rw [release_some related positive found]
    rfl

theorem replace_some (related : LadderBook.Simulates tick window n b s)
    (positive : 0 < tick.toNat) (narrow : ∀ p, (window p).toNat < 2 ^ 63) (orig next : UInt64)
    (shares price : UInt32) :
    replace b orig next shares price = some (b.replace orig next shares price) := by
  have removed := (related.remove (LadderBook.locator_sound tick window positive) orig).2
  simp only [replace, LadderBook.replace, Locator.replace, LadderBook.locator]
  cases found : b.orders.lookup orig with
  | none => rfl
  | some o =>
    dsimp only
    rw [remove_some related positive, Option.bind_some]
    exact add_some removed positive narrow next o.side shares price

theorem call_some (related : LadderBook.Simulates tick window n b s)
    (positive : 0 < tick.toNat) (narrow : ∀ p, (window p).toNat < 2 ^ 63) (c : Call) :
    call b c = some (b.call c) := by
  cases c with
  | add ref side shares price => exact add_some related positive narrow ref side shares price
  | execute ref shares | cancel ref shares => exact reduce_some related positive ref shares
  | remove ref => exact remove_some related positive ref
  | replace orig next shares price => exact replace_some related positive narrow orig next shares price

theorem best_some (valid : LadderBook.Valid tick window b d) (positive : 0 < tick.toNat) (bid : Bool) :
    best b (b.side bid) = some (b.best (b.side bid)) := by
  unfold best LadderBook.best
  cases chosen : (b.side bid).bestIdx with
  | none => rfl
  | some i =>
    have inside := (valid.holds bid).inside i chosen
    have size := (valid.holds bid).size
    have fits : b.minPrice.toNat + i * b.tickSize.toNat < 2 ^ 32 := by
      have price := valid.fits.priceAt positive inside
      have small := (b.priceAt i).toNat_lt
      rw [valid.fits.tickSize]
      change b.range.lo + _ < _
      omega
    dsimp only
    rw [read_some (by omega), Option.bind_some, priceAt, if_pos fits]
    rfl

structure Safe (b : LadderBook) : Prop where
  tick : 0 < b.tickSize
  aligned : b.tickSize.toNat ∣ b.minPrice.toNat
  ordered : b.minPrice ≤ b.maxPrice
  entries : ∀ bid,
    (b.side bid).levels.size = (b.maxPrice.toNat - b.minPrice.toNat) / b.tickSize.toNat + 1
  ceiling : (b.maxPrice.toNat - b.minPrice.toNat) / b.tickSize.toNat + 1 ≤ LadderBook.kMaxTicks
  resting : ∀ ref o, b.orders.lookup ref = some o →
    b.tickSize.toNat ∣ o.price.toNat - b.minPrice.toNat ∧ b.minPrice ≤ o.price ∧ o.price ≤ b.maxPrice

theorem ladder_ceiling {t : Nat} {w : Nat → Nat} {r : Book.Range}
    (small : r.ticks t ≤ LadderBook.kMaxTicks) (price : Nat) :
    ((Gate.ladder t w).admits r price).2.ticks t ≤ LadderBook.kMaxTicks := by
  simp only [Gate.ladder]
  split
  · exact small
  · split
    next fits => exact fits
    next => exact small

theorem call_ceiling {t : Nat} {w : Nat → Nat} (small : s.gate.ticks t ≤ LadderBook.kMaxTicks) (c : Call) :
    (s.call (Gate.ladder t w) c).2.gate.ticks t ≤ LadderBook.kMaxTicks := by
  rcases s.call_gate (Gate.ladder t w) c with same | ⟨price, moved⟩
  · rwa [same]
  · rw [moved]
    exact ladder_ceiling small price

theorem simulates_safe (related : LadderBook.Simulates tick window n b s) (positive : 0 < tick.toNat)
    (small : s.gate.ticks tick.toNat ≤ LadderBook.kMaxTicks) : Safe b := by
  have fits := related.valid.fits
  have same : b.orders = s.orders := related.orders
  have ticks : b.numTicks = (b.maxPrice.toNat - b.minPrice.toNat) / b.tickSize.toNat + 1 := by
    rw [fits.tickSize]
    exact fits.ticks
  refine ⟨?_, ?_, UInt32.le_iff_toNat_le.mpr fits.ordered, fun bid => ?_, ?_, fun ref o found => ?_⟩
  · rw [fits.tickSize, UInt32.lt_iff_toNat_lt]
    exact positive
  · rw [fits.tickSize]
    exact fits.aligned
  · rw [← ticks]
    exact (related.valid.holds bid).size
  · rw [← ticks, fits.ticks, related.gate]
    exact small
  · rw [same] at found
    obtain ⟨occupied, -, -⟩ := depths_found found
    obtain ⟨i, inside, here⟩ := (related.valid.holds (isBuy o.side)).onGrid _ occupied
    rw [fits.ticks, Book.Range.ticks, LadderBook.index_lt_iff positive fits.ordered, ← here] at inside
    refine ⟨?_, UInt32.le_iff_toNat_le.mpr ?_, UInt32.le_iff_toNat_le.mpr inside⟩
    · rw [fits.tickSize, here]
      change tick.toNat ∣ b.range.lo + i * tick.toNat - b.range.lo
      rw [Nat.add_sub_cancel_left]
      exact Nat.dvd_mul_left _ _
    · change b.range.lo ≤ _
      omega

end Operations

end Checked

end ItchLob.Book
