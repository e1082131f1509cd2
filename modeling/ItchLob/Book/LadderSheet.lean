import ItchLob.Book.LadderRefinement

set_option autoImplicit false

namespace ItchLob.Book

open Itch FiniteMap

/-- What a side holds at every tick of the whole price axis, counted from zero. -/
structure Sheet where
  cells : Nat → Level
  levelCount : UInt64
  best : Option Nat

namespace Sheet

def retreat (cells : Nat → Level) : Nat → Option Nat
  | 0 => none
  | k + 1 => if 0 < (cells k).orders then some k else retreat cells k

def advance (cells : Nat → Level) : Nat → Nat → Option Nat
  | 0, _ => none
  | left + 1, k => if 0 < (cells k).orders then some k else advance cells left (k + 1)

def add (bid : Bool) (s : Sheet) (k : Nat) (shares : UInt32) : Sheet :=
  let l := s.cells k
  { cells := Function.update s.cells k { shares := l.shares + shares.toUInt64, orders := l.orders + 1 }
    levelCount := if l.orders = 0 then s.levelCount + 1 else s.levelCount
    best :=
      match s.best with
      | none => some k
      | some best => if LadderSide.better bid k best then some k else some best }

def sub (bid : Bool) (s : Sheet) (k : Nat) (shares : UInt32) (orderGone : Bool) : Sheet :=
  let l := s.cells k
  let left := l.shares - (if shares.toUInt64 < l.shares then shares.toUInt64 else l.shares)
  let count := if orderGone && 0 < l.orders then l.orders - 1 else l.orders
  let cells := Function.update s.cells k { shares := left, orders := count }
  if count = 0 then
    { cells
      levelCount := s.levelCount - 1
      best :=
        if s.best = some k then
          if bid then retreat cells k else advance cells (2 ^ 32 - (k + 1)) (k + 1)
        else s.best }
  else { s with cells }

theorem retreat_empty {cells : Nat → Level} (k : Nat) (empty : ∀ j, j < k → ¬ 0 < (cells j).orders) :
    retreat cells k = none := by
  induction k with
  | zero => rfl
  | succ k ih =>
    rw [retreat, if_neg (empty k (Nat.lt_succ_self k))]
    exact ih fun j below => empty j (by omega)

theorem advance_empty {cells : Nat → Level} (left start : Nat)
    (empty : ∀ k, start ≤ k → ¬ 0 < (cells k).orders) : advance cells left start = none := by
  induction left generalizing start with
  | zero => rfl
  | succ left ih =>
    rw [advance, if_neg (empty start (Nat.le_refl start))]
    exact ih (start + 1) fun k above => empty k (by omega)

theorem advance_beyond {cells : Nat → Level} (left extra start : Nat)
    (empty : ∀ k, start + left ≤ k → ¬ 0 < (cells k).orders) :
    advance cells (left + extra) start = advance cells left start := by
  induction left generalizing start with
  | zero => exact advance_empty _ start fun k above => empty k (by omega)
  | succ left ih =>
    have rest := ih (start + 1) (fun k above => empty k (by omega))
    rw [Nat.add_right_comm, advance, advance, rest]

end Sheet

namespace LadderSide

def cells (base : Nat) (levels : Array Level) (k : Nat) : Level :=
  if base ≤ k then levelAt levels (k - base) else {}

def sheet (base : Nat) (s : LadderSide) : Sheet :=
  { cells := cells base s.levels
    levelCount := s.levelCount
    best := s.bestIdx.map (base + ·) }

section Cells

variable {base i n : Nat} {levels : Array Level} {s : LadderSide} {bid : Bool} {shares : UInt32}

theorem cells_at (base i : Nat) (levels : Array Level) : cells base levels (base + i) = levelAt levels i := by
  rw [cells, if_pos (by omega), Nat.add_sub_cancel_left]

theorem cells_outside {k : Nat} (outside : k < base ∨ base + levels.size ≤ k) : cells base levels k = {} := by
  unfold cells
  split
  next above => exact levelAt_outside (by omega)
  next => rfl

theorem cells_set (inside : i < levels.size) (l : Level) :
    cells base (levels.setIfInBounds i l) = Function.update (cells base levels) (base + i) l := by
  funext k
  by_cases here : k = base + i
  · subst here
    rw [cells_at, levelAt_setIfInBounds, if_pos ⟨rfl, inside⟩, Function.update_self]
  · rw [Function.update_of_ne here, cells, cells]
    split
    next above => rw [levelAt_setIfInBounds, if_neg (by omega)]
    next => rfl

theorem retreat_cells (base i : Nat) (levels : Array Level) :
    Sheet.retreat (cells base levels) (base + i) = (retreatBestBid levels i).map (base + ·) := by
  induction i with
  | zero =>
    refine Sheet.retreat_empty base fun j below => ?_
    rw [cells_outside (.inl below)]
    decide
  | succ i ih =>
    rw [← Nat.add_assoc, Sheet.retreat, retreatBestBid, cells_at, ih]
    split <;> rfl

theorem advance_cells (base left i : Nat) (levels : Array Level) :
    Sheet.advance (cells base levels) left (base + i) = (advanceFrom levels left i).map (base + ·) := by
  induction left generalizing i with
  | zero => rfl
  | succ left ih =>
    rw [Sheet.advance, advanceFrom, cells_at, Nat.add_assoc, ih]
    split <;> rfl

theorem better_shift (bid : Bool) (base i j : Nat) : better bid (base + i) (base + j) = better bid i j := by
  cases bid <;> simp [better]

theorem add_sheet (inside : i < s.levels.size) :
    (s.add bid i shares).sheet base = (s.sheet base).add bid (base + i) shares := by
  have read : (s.sheet base).cells (base + i) = s.level i := cells_at base i s.levels
  unfold Sheet.add
  rw [read]
  simp only [sheet, add, cells_set inside]
  congr 1
  cases s.bestIdx with
  | none => rfl
  | some best =>
    simp only [Option.map_some, better_shift]
    split <;> rfl

theorem sub_sheet (size : s.levels.size = n) (inside : i < n) (axis : base + n ≤ 2 ^ 32) (gone : Bool) :
    (s.sub bid n i shares gone).sheet base = (s.sheet base).sub bid (base + i) shares gone := by
  have read : (s.sheet base).cells (base + i) = s.level i := cells_at base i s.levels
  have chosen : (s.sheet base).best = some (base + i) ↔ s.bestIdx = some i := by
    simp [sheet]
  have scan (l : Level) :
      (if bid then Sheet.retreat (cells base (s.levels.setIfInBounds i l)) (base + i)
        else Sheet.advance (cells base (s.levels.setIfInBounds i l)) (2 ^ 32 - (base + i + 1)) (base + i + 1)) =
      (if bid then retreatBestBid (s.levels.setIfInBounds i l) i
        else advanceBestAsk (s.levels.setIfInBounds i l) n i).map (base + ·) := by
    have same : (s.levels.setIfInBounds i l).size = n := by rw [Array.size_setIfInBounds, size]
    have beyond : 2 ^ 32 - (base + i + 1) = n - (i + 1) + (2 ^ 32 - (base + n)) := by omega
    rw [retreat_cells, beyond, Sheet.advance_beyond, Nat.add_assoc, advance_cells, advanceBestAsk]
    · split <;> rfl
    · intro k above
      rw [cells_outside (.inr (by omega))]
      decide
  unfold Sheet.sub
  rw [read]
  simp only [chosen, sub]
  generalize (if gone && decide (0 < (s.level i).orders) then (s.level i).orders - 1
    else (s.level i).orders) = count
  have placed (l : Level) :
      cells base (s.levels.setIfInBounds i l) = Function.update (cells base s.levels) (base + i) l :=
    cells_set (by omega) l
  by_cases empty : count = 0
  · simp only [empty, if_true, sheet, apply_ite (Option.map (base + ·)), ← placed, scan]
  · simp only [empty, if_false, sheet, ← placed]

theorem resize_sheet {offset newTicks : Nat} (size : s.levels.size = n) (room : offset + n ≤ newTicks) :
    (s.resize offset n newTicks).sheet base = s.sheet (base + offset) := by
  have moved : cells base (copyInto (Array.replicate newTicks {}) s.levels offset n) =
      cells (base + offset) s.levels := by
    funext k
    unfold cells
    by_cases above : base ≤ k
    · rw [if_pos above, copyInto_levelAt _ _ _ _ _ (by rwa [Array.size_replicate]), levelAt_replicate,
        Nat.sub_sub]
      by_cases copied : offset ≤ k - base ∧ k - base < offset + n
      · rw [if_pos copied, if_pos (by omega)]
      · rw [if_neg copied]
        split
        next => rw [levelAt_outside (by omega)]
        next => rfl
    · rw [if_neg above, if_neg (by omega)]
  simp only [sheet, resize, moved, Option.map_map, Sheet.mk.injEq, true_and]
  congr 1
  funext j
  simp only [Function.comp_apply]
  omega

theorem add_size (bid : Bool) (s : LadderSide) (i : Nat) (shares : UInt32) :
    (s.add bid i shares).levels.size = s.levels.size := by
  rw [add, Array.size_setIfInBounds]

theorem sub_size (bid : Bool) (n : Nat) (s : LadderSide) (i : Nat) (shares : UInt32) (gone : Bool) :
    (s.sub bid n i shares gone).levels.size = s.levels.size := by
  simp only [sub]
  by_cases empty : (if gone && decide (0 < (s.level i).orders) then (s.level i).orders - 1
    else (s.level i).orders) = 0
  · rw [if_pos empty, Array.size_setIfInBounds]
  · rw [if_neg empty, Array.size_setIfInBounds]

theorem resize_size (s : LadderSide) (offset n newTicks : Nat) :
    (s.resize offset n newTicks).levels.size = newTicks := by
  rw [resize, copyInto_size, Array.size_replicate]

end Cells

end LadderSide

structure Ledger where
  orders : Orders
  sheet : Bool → Sheet

namespace Ledger

variable (tick : Nat)

def onSheet (l : Ledger) (side : Side) (change : Sheet → Sheet) : Ledger :=
  { l with sheet := Function.update l.sheet (isBuy side) (change (l.sheet (isBuy side))) }

theorem onSheet_here (l : Ledger) (side : Side) (change : Sheet → Sheet) :
    (l.onSheet side change).sheet (isBuy side) = change (l.sheet (isBuy side)) := Function.update_self ..

theorem onSheet_other (l : Ledger) {side : Side} {bid : Bool} (change : Sheet → Sheet)
    (other : isBuy side ≠ bid) : (l.onSheet side change).sheet bid = l.sheet bid :=
  Function.update_of_ne (Ne.symm other) ..

def levelSub (l : Ledger) (side : Side) (price shares : UInt32) (orderGone : Bool) : Ledger :=
  l.onSheet side fun s => s.sub (isBuy side) (price.toNat / tick) shares orderGone

def levelAdd (l : Ledger) (side : Side) (price shares : UInt32) : Ledger :=
  l.onSheet side fun s => s.add (isBuy side) (price.toNat / tick) shares

def locator : Locator Ledger where
  orders := orders
  setOrders := fun l orders => { l with orders := orders }
  levelSub := levelSub tick

-- `admitted` is the window's answer for the price of a new order.
def add (admitted : UInt32 → Bool) (l : Ledger) (ref : UInt64) (side : Side) (shares price : UInt32) :
    Bool × Ledger :=
  if admitted price then
    match l.orders.lookup ref with
    | some _ => (false, l)
    | none =>
      (true, levelAdd tick { l with orders := l.orders.insert ref ⟨shares, price, side⟩ } side price shares)
  else (false, l)

def call (admitted : UInt32 → Bool) (l : Ledger) : Call → Bool × Ledger
  | .add ref side shares price => l.add tick admitted ref side shares price
  | .execute ref shares => (locator tick).reduce l ref shares
  | .cancel ref shares => (locator tick).reduce l ref shares
  | .remove ref => (locator tick).remove l ref
  | .replace orig next shares price => (locator tick).replace (add tick admitted) l orig next shares price

def quote (l : Ledger) (bid : Bool) : Option Quote :=
  (l.sheet bid).best.map fun k =>
    { price := UInt32.ofNat (k * tick), shares := ((l.sheet bid).cells k).shares }

def view (l : Ledger) : View :=
  { bestBid := (l.quote tick true).map Quote.exact
    bestAsk := (l.quote tick false).map Quote.exact
    openOrders := size l.orders
    bidLevels := (l.sheet true).levelCount.toNat
    askLevels := (l.sheet false).levelCount.toNat }

def asks (l : Ledger) : Call → Option UInt32
  | .add _ _ _ price => some price
  | .replace orig _ _ price => if (l.orders.lookup orig).isSome then some price else none
  | _ => none

end Ledger

namespace LadderBook

/-- The book holds the ledger behind the price range r. Unlike Simulates this
says nothing about the counters' sizes, so it survives runs of any length. -/
structure Shows (tick : UInt32) (window : UInt32 → UInt64) (b : LadderBook) (l : Ledger) (r : Range) :
    Prop where
  fits : Fits tick window b
  range : b.range = r
  size : ∀ bid, (b.side bid).levels.size = b.numTicks
  orders : b.orders = l.orders
  sheet : ∀ bid, (b.side bid).sheet (r.lo / tick.toNat) = l.sheet bid
  resting : ∀ ref o, l.orders.lookup ref = some o →
    r.covers o.price.toNat = true ∧ tick.toNat ∣ o.price.toNat

section Shows

variable {tick : UInt32} {window : UInt32 → UInt64} {b : LadderBook} {l : Ledger} {r : Range}
  {price : UInt32}

theorem Shows.axis (shows : Shows tick window b l r) : r.lo / tick.toNat + b.numTicks ≤ 2 ^ 32 := by
  have fits := shows.fits
  have ordered := fits.ordered
  have top := b.maxPrice.toNat_lt
  change b.range.hi < 2 ^ 32 at top
  have parts : b.range.lo / tick.toNat + (b.range.hi - b.range.lo) / tick.toNat ≤
      (b.range.lo + (b.range.hi - b.range.lo)) / tick.toNat := Nat.div_add_div_le_add_div
  have whole : b.range.lo + (b.range.hi - b.range.lo) = b.range.hi := by omega
  have most := Nat.div_le_self b.range.hi tick.toNat
  rw [whole] at parts
  rw [← shows.range, fits.ticks, Range.ticks]
  omega

theorem Shows.index (shows : Shows tick window b l r) (positive : 0 < tick.toNat)
    (covered : r.covers price.toNat = true) (multiple : tick.toNat ∣ price.toNat) :
    b.idx price < b.numTicks ∧ r.lo / tick.toNat + b.idx price = price.toNat / tick.toNat := by
  rw [← shows.range] at covered ⊢
  simp only [Range.covers, Bool.and_eq_true, decide_eq_true_eq] at covered
  obtain ⟨i, inside, here⟩ := shows.fits.onGrid positive covered multiple
  rw [shows.fits.idx positive here, here, Nat.add_mul_div_right _ _ positive]
  exact ⟨inside, rfl⟩

theorem Shows.relevels (shows : Shows tick window b l r) {b' : LadderBook} {side : Side}
    {changed : LadderSide} {change : Sheet → Sheet} (moved : Relevels b b' (isBuy side) changed)
    (size : changed.levels.size = b.numTicks)
    (sheet : changed.sheet (r.lo / tick.toNat) = change (l.sheet (isBuy side))) :
    Shows tick window b' (l.onSheet side change) r := by
  have same := moved.range
  obtain ⟨⟨bids, asks, frame⟩, here, other⟩ := moved
  have fits := shows.fits
  have ticks : b'.numTicks = b.numTicks := by rw [frame]
  refine ⟨?_, same.trans shows.range, fun bid => ?_, ?_, fun bid => ?_, shows.resting⟩
  · rw [frame]
    exact ⟨fits.tickSize, fits.conversion, fits.aligned, fits.ordered, fits.ticks⟩
  · by_cases there : isBuy side = bid
    · rw [← there, here, ticks]
      exact size
    · rw [other bid there, ticks]
      exact shows.size bid
  · rw [frame]
    exact shows.orders
  · by_cases there : isBuy side = bid
    · rw [← there, here, sheet, Ledger.onSheet_here]
    · rw [other bid there, Ledger.onSheet_other _ _ there]
      exact shows.sheet bid

theorem Shows.levelSub (shows : Shows tick window b l r) (positive : 0 < tick.toNat) (side : Side)
    (shares : UInt32) (gone : Bool) (covered : r.covers price.toNat = true)
    (multiple : tick.toNat ∣ price.toNat) :
    Shows tick window (b.levelSub side price shares gone) (l.levelSub tick.toNat side price shares gone) r := by
  obtain ⟨inside, index⟩ := shows.index positive covered multiple
  refine shows.relevels (levelSub_relevels b side price shares gone) ?_ ?_
  · rw [LadderSide.sub_size]
    exact shows.size _
  · rw [LadderSide.sub_sheet (shows.size _) inside shows.axis, index, shows.sheet]

theorem Shows.levelAdd (shows : Shows tick window b l r) (positive : 0 < tick.toNat) (side : Side)
    (shares : UInt32) (covered : r.covers price.toNat = true) (multiple : tick.toNat ∣ price.toNat) :
    Shows tick window (b.levelAdd side price shares) (l.levelAdd tick.toNat side price shares) r := by
  obtain ⟨inside, index⟩ := shows.index positive covered multiple
  refine shows.relevels (levelAdd_relevels b side price shares) ?_ ?_
  · rw [LadderSide.add_size]
    exact shows.size _
  · rw [LadderSide.add_sheet (by rw [shows.size]; exact inside), index, shows.sheet]

theorem Shows.setOrders (shows : Shows tick window b l r) (orders : Orders)
    (resting : ∀ ref o, orders.lookup ref = some o →
      r.covers o.price.toNat = true ∧ tick.toNat ∣ o.price.toNat) :
    Shows tick window { b with orders } { l with orders } r := by
  have fits := shows.fits
  exact ⟨⟨fits.tickSize, fits.conversion, fits.aligned, fits.ordered, fits.ticks⟩, shows.range, shows.size,
    rfl, shows.sheet, resting⟩

theorem Shows.remove (shows : Shows tick window b l r) (positive : 0 < tick.toNat) (ref : UInt64) :
    (b.remove ref).1 = ((Ledger.locator tick.toNat).remove l ref).1 ∧
      Shows tick window (b.remove ref).2 ((Ledger.locator tick.toNat).remove l ref).2 r := by
  simp only [LadderBook.remove, Locator.remove, LadderBook.locator, Ledger.locator, shows.orders]
  cases found : l.orders.lookup ref with
  | none => exact ⟨rfl, shows⟩
  | some o =>
    obtain ⟨covered, multiple⟩ := shows.resting ref o found
    have erased := shows.setOrders (l.orders.erase ref) fun other o' there =>
      shows.resting other o' (found_erase there)
    exact ⟨rfl, erased.levelSub positive o.side o.shares true covered multiple⟩

theorem Shows.reduce (shows : Shows tick window b l r) (positive : 0 < tick.toNat) (ref : UInt64)
    (shares : UInt32) :
    (b.reduce ref shares).1 = ((Ledger.locator tick.toNat).reduce l ref shares).1 ∧
      Shows tick window (b.reduce ref shares).2 ((Ledger.locator tick.toNat).reduce l ref shares).2 r := by
  simp only [LadderBook.reduce, Locator.reduce, LadderBook.locator, Ledger.locator, shows.orders]
  cases found : l.orders.lookup ref with
  | none => exact ⟨rfl, shows⟩
  | some o =>
    obtain ⟨covered, multiple⟩ := shows.resting ref o found
    dsimp only
    generalize (if shares < o.shares then shares else o.shares) = qty
    refine ⟨rfl, Shows.levelSub (shows.setOrders _ fun other o' there => ?_) positive o.side _ _ covered multiple⟩
    split at there
    · exact shows.resting other o' (found_erase there)
    · rw [lookup_insert_eq] at there
      split at there
      · cases there
        exact ⟨covered, multiple⟩
      · exact shows.resting other o' there

theorem Shows.resizeRange (shows : Shows tick window b l r) (positive : 0 < tick.toNat)
    {newMin newMax : UInt32} (lower : newMin.toNat ≤ r.lo) (upper : r.hi ≤ newMax.toNat)
    (aligned : tick.toNat ∣ newMin.toNat) :
    Shows tick window (b.resizeRange newMin newMax (LadderBook.ticks newMin newMax tick)) l
      ⟨newMin.toNat, newMax.toNat⟩ := by
  rw [← shows.range] at lower upper
  obtain ⟨low, room⟩ := shows.fits.shift positive lower upper aligned
  refine ⟨shows.fits.resized lower upper aligned, rfl, fun bid => ?_, shows.orders, fun bid => ?_, ?_⟩
  · cases bid <;> exact LadderSide.resize_size ..
  · have moved := shows.sheet bid
    rw [← shows.range, low, Nat.add_mul_div_right _ _ positive] at moved
    rw [← moved]
    cases bid
    · exact LadderSide.resize_sheet (shows.size false) room
    · exact LadderSide.resize_sheet (shows.size true) room
  · intro ref o found
    obtain ⟨covered, multiple⟩ := shows.resting ref o found
    rw [← shows.range] at covered
    simp only [Range.covers, Bool.and_eq_true, decide_eq_true_eq] at covered ⊢
    exact ⟨⟨lower.trans covered.1, covered.2.trans upper⟩, multiple⟩

section Admission

variable (positive : 0 < tick.toNat) (narrow : ∀ p, (window p).toNat < 2 ^ 63)

def gate (tick : UInt32) (window : UInt32 → UInt64) : Gate Range :=
  Gate.ladder tick.toNat (exactWindow window)

def admitted (tick : UInt32) (window : UInt32 → UInt64) (r : Range) (price : UInt32) : Bool :=
  ((gate tick window).admits r price.toNat).1

def moved (tick : UInt32) (window : UInt32 → UInt64) (r : Range) (price : UInt32) : Range :=
  ((gate tick window).admits r price.toNat).2

include positive narrow in
theorem Shows.admit (shows : Shows tick window b l r) (price : UInt32) :
    let grown := if b.inRange price then (true, b) else b.growToInclude price
    Shows tick window grown.2 l (moved tick window r price) ∧
      (grown.1 = true → (moved tick window r price).covers price.toNat = true) ∧
      (admitted tick window r price = true ↔ grown.1 = true ∧ price.toNat % tick.toNat = 0) := by
  intro grown
  unfold admitted moved
  have admits := shows.fits.admit narrow price
  rw [shows.range] at admits
  change (grown = _ ∧ (gate tick window).admits r _ = _ ∧ _) ∨
    (∃ _ _, grown = _ ∧ (gate tick window).admits r _ = _ ∧ _) ∨
    (grown = _ ∧ (gate tick window).admits r _ = _) at admits
  clear_value grown
  generalize (gate tick window).admits r price.toNat = passed at admits ⊢
  obtain ⟨rfl, rfl, covered⟩ | ⟨newMin, newMax, rfl, rfl, covered, lower, upper, aligned⟩ | ⟨rfl, rfl⟩ := admits
  · exact ⟨shows, fun _ => covered, by simp⟩
  · exact ⟨shows.resizeRange positive lower upper aligned, fun _ => covered, by simp⟩
  · exact ⟨shows, by simp, by simp⟩

include positive narrow in
theorem Shows.add (shows : Shows tick window b l r) (ref : UInt64) (side : Side) (shares price : UInt32) :
    (b.add ref side shares price).1 =
        (l.add tick.toNat (admitted tick window r) ref side shares price).1 ∧
      Shows tick window (b.add ref side shares price).2
        (l.add tick.toNat (admitted tick window r) ref side shares price).2 (moved tick window r price) := by
  obtain ⟨kept, covers, passes⟩ := shows.admit positive narrow price
  unfold LadderBook.add Ledger.add
  revert kept covers passes
  generalize (if b.inRange price then (true, b) else b.growToInclude price) = grown
  intro kept covers passes
  dsimp only
  cases grew : grown.1 with
  | false =>
    have shut : ¬ admitted tick window r price = true := fun passed => by simp [passes.mp passed] at grew
    rw [if_neg shut]
    exact ⟨rfl, kept⟩
  | true =>
    have covered := covers grew
    have above : grown.2.range.lo ≤ price.toNat := by
      rw [kept.range]
      simp only [Range.covers, Bool.and_eq_true, decide_eq_true_eq] at covered
      exact covered.1
    have remainder := kept.fits.remainder above
    by_cases multiple : price.toNat % tick.toNat = 0
    · rw [if_pos (passes.mpr ⟨grew, multiple⟩)]
      simp only [remainder.mpr multiple, Bool.not_true, Bool.false_eq_true, ne_eq, not_true, if_false,
        kept.orders]
      cases found : l.orders.lookup ref with
      | some o => exact ⟨rfl, kept⟩
      | none =>
        have divides := Nat.dvd_of_mod_eq_zero multiple
        have stored := kept.setOrders (l.orders.insert ref ⟨shares, price, side⟩) fun other o there => by
          rw [lookup_insert_eq] at there
          split at there
          · cases there
            exact ⟨covered, divides⟩
          · exact kept.resting other o there
        exact ⟨rfl, stored.levelAdd positive side shares covered divides⟩
    · have shut : ¬ admitted tick window r price = true := fun passed => multiple (passes.mp passed).2
      have off : ¬ (price - grown.2.minPrice) % grown.2.tickSize = 0 := fun h => multiple (remainder.mp h)
      rw [if_neg shut]
      simp only [off, Bool.not_true, Bool.false_eq_true, ne_eq, not_false_eq_true, if_true, if_false]
      exact ⟨trivial, kept⟩

-- The range moves for the price the call asks about and for no other reason.
def movedBy (tick : UInt32) (window : UInt32 → UInt64) (r : Range) : Option UInt32 → Range
  | none => r
  | some price => moved tick window r price

include positive narrow in
theorem Shows.call (shows : Shows tick window b l r) (c : Call) :
    (b.call c).1 = (l.call tick.toNat (admitted tick window r) c).1 ∧
      Shows tick window (b.call c).2 (l.call tick.toNat (admitted tick window r) c).2
        (movedBy tick window r (l.asks c)) := by
  cases c with
  | add ref side shares price => exact shows.add positive narrow ref side shares price
  | execute ref shares | cancel ref shares => exact shows.reduce positive ref shares
  | remove ref => exact shows.remove positive ref
  | replace orig next shares price =>
    have removed := (shows.remove positive orig).2
    have same : locator.orders b = l.orders := shows.orders
    have mirror : (Ledger.locator tick.toNat).orders l = l.orders := rfl
    simp only [LadderBook.call, LadderBook.replace, Ledger.call, Locator.replace, Ledger.asks, same, mirror]
    cases found : l.orders.lookup orig with
    | none => exact ⟨rfl, shows⟩
    | some o => exact removed.add positive narrow next o.side shares price

theorem shows_run (positive : 0 < tick.toNat) (narrow : ∀ p, (window p).toNat < 2 ^ 63)
    (shows : Shows tick window b l r) (calls : List Call) :
    ∃ l' r', Shows tick window (Simulation.run LadderBook.call b calls) l' r' := by
  induction calls generalizing b l r with
  | nil => exact ⟨l, r, shows⟩
  | cons c rest ih => exact ih (shows.call positive narrow c).2

end Admission

theorem Shows.priceAt (shows : Shows tick window b l r) (i : Nat) :
    b.priceAt i = UInt32.ofNat ((r.lo / tick.toNat + i) * tick.toNat) := by
  have aligned := shows.fits.aligned
  rw [shows.range] at aligned
  rw [Nat.add_mul, Nat.div_mul_cancel aligned, UInt32.ofNat_add, UInt32.ofNat_mul, UInt32.ofNat_toNat,
    LadderBook.priceAt, shows.fits.tickSize, ← shows.range]
  congr 1
  exact UInt32.ofNat_toNat.symm

theorem Shows.quote (shows : Shows tick window b l r) (bid : Bool) :
    b.best (b.side bid) = l.quote tick.toNat bid := by
  rw [Ledger.quote, ← shows.sheet bid, LadderBook.best, LadderSide.sheet, Option.map_map]
  congr 1
  funext i
  rw [Function.comp_apply, shows.priceAt]
  dsimp only
  rw [LadderSide.cells_at]
  rfl

theorem Shows.view (shows : Shows tick window b l r) : b.view = l.view tick.toNat := by
  have counts (bid : Bool) : (b.side bid).levelCount = (l.sheet bid).levelCount := by
    rw [← shows.sheet bid]
    rfl
  have bids : b.bestBid = l.quote tick.toNat true := shows.quote true
  have asks : b.bestAsk = l.quote tick.toNat false := shows.quote false
  rw [LadderBook.view, Ledger.view, bids, asks, openOrders, shows.orders, bidLevels, askLevels,
    ← counts true, ← counts false]
  rfl

theorem construct_shows (tick base : UInt32) (narrow : ∀ p, (window p).toNat < 2 ^ 63) :
    ∃ b l, ofRange tick (snapToTick (windowLow window base) tick) (windowHigh window base) window = some b ∧
      l.orders = ∅ ∧ Shows tick window b l (Range.around tick.toNat (exactWindow window) base.toNat) := by
  obtain ⟨b, built, same, around, valid, -⟩ := construct_simulates tick base narrow
  have range : b.range = Range.around tick.toNat (exactWindow window) base.toNat := around
  refine ⟨b, ⟨∅, fun bid => (b.side bid).sheet (b.range.lo / tick.toNat)⟩, built, rfl, valid.fits, range,
    fun bid => (valid.holds bid).size, same, fun bid => ?_, ?_⟩
  · rw [range]
  · intro ref o found
    cases found

end Shows

end LadderBook

end ItchLob.Book
